import HolderDaemon.AiRecovery
import HolderDaemon.Effects

/-!
Requests that write AI threads (`api/routes/ai/threads/AiThreadItemRoutes.cpp`,
`api/routes/ai/threads/AiThreadCollectionRoutes.cpp`, `ai/AiThreadDurability.cpp`, and the thread
part of `api/routes/ai/runs/AiRunPostRoute.cpp`): each is a sequence of database statements and
manifest writes, any one of which may throw.
-/

set_option autoImplicit false

open Bytes

namespace HolderDaemon

namespace AiDurability

/-- The encoder takes the thread's texts. -/
def Thread.encodes (thread : Thread) : Bool :=
  validUtf8 thread.threadId.val && validUtf8 thread.projectId.val && validUtf8 thread.title.val &&
    thread.cardId.all fun card => validUtf8 card.val

namespace State

def thread? (t : State) (id : Text) : Option Thread := Rows.get Thread.threadId id t.threads

/-- An update of one row, where there is one. -/
def setThread (t : State) (id : Text) (f : Thread → Thread) : State :=
  match t.thread? id with
  | none => t
  | some row => { t with threads := Rows.put Thread.threadId (f row) t.threads }

end State

inductive Effect where
  | create (thread : Thread)
  | updateTitle (id title : Text) (updatedAt : Int64)
  | touchUpdated (id : Text) (updatedAt : Int64)
  | updateCardId (id : Text) (cardId : Option Text)
  | persist (thread : Thread)
  /-- `persist_ai_thread(db, repo.get(id).value())`. -/
  | persistRow (id : Text)
  | removeManifest (id : Text)
  | remove (id : Text)

/-- `persist_ai_thread`: the project is looked up, and the thread is encoded and written. -/
def persistEncoded (t : State) (thread : Thread) : Option State :=
  if thread.encodes then t.persistAiThread thread else none

def Effect.act (t : State) : Effect → Option State
  | .create thread =>
    match t.thread? thread.threadId with
    | some _ => none
    | none => some { t with threads := Rows.put Thread.threadId thread t.threads }
  | .updateTitle id title updatedAt =>
    some (t.setThread id fun row => { row with title, updatedAt })
  | .touchUpdated id updatedAt => some (t.setThread id fun row => { row with updatedAt })
  | .updateCardId id cardId => some (t.setThread id fun row => { row with cardId })
  | .persist thread => persistEncoded t thread
  | .persistRow id => (t.thread? id).bind (persistEncoded t)
  | .removeManifest id =>
    (t.thread? id).bind fun row =>
      if row.projectId ∈ t.projectIds then
        let p := t.project row.projectId
        some (t.update row.projectId
          { p with threadManifests := Rows.drop Thread.threadId id p.threadManifests })
      else none
  | .remove id => some { t with threads := Rows.drop Thread.threadId id t.threads }

/-- POST /ai/runs as far as threads go: `rejected` tells whether the request is answered with an
error after its thread was created, and `nextTitle` what the stream's title update sets. -/
structure RunRequest where
  threadId : Option Text := none
  projectId : Option Text := none
  cardId : Option Text := none
  prompt : Text
  uuid : Text
  now : Int64
  rejected : Bool := false
  nextTitle : Option Text := none
  titleAt : Int64 := 0

/-- The thread of `ensure_ai_run_thread`. -/
def RunRequest.newThread (r : RunRequest) : Option Thread :=
  match r.threadId, r.projectId with
  | none, some projectId =>
    some ⟨r.uuid, projectId, r.cardId, cString (r.prompt.val.take 80), r.now, r.now⟩
  | _, _ => none

/-- The thread that the run belongs to. -/
def RunRequest.runThread (r : RunRequest) : Option Text :=
  match r.threadId with
  | some id => some id
  | none => r.newThread.map Thread.threadId

inductive ThreadRequest where
  | create (thread : Thread)
  | patch (threadId : Text) (title : Option Text) (cardId : Option (Option Text))
      (updatedAt : Int64)
  | delete (threadId : Text)
  | run (r : RunRequest)

/-- The thread that a request is about. -/
def ThreadRequest.threadId : ThreadRequest → Option Text
  | .create thread => some thread.threadId
  | .patch id _ _ _ => some id
  | .delete id => some id
  | .run r => r.runThread

def createEffects (thread : Thread) : List Effect := [.create thread, .persist thread]

def titleEffect (id : Text) (title : Option Text) (updatedAt : Int64) : Effect :=
  match title with
  | some title => .updateTitle id title updatedAt
  | none => .touchUpdated id updatedAt

def cardEffects (id : Text) : Option (Option Text) → List Effect
  | some cardId => [.updateCardId id cardId]
  | none => []

def patchEffects (id : Text) (title : Option Text) (cardId : Option (Option Text))
    (updatedAt : Int64) : List Effect :=
  titleEffect id title updatedAt :: (cardEffects id cardId ++ [.persistRow id])

def deleteEffects (id : Text) : List Effect := [.removeManifest id, .remove id]

/-- `maybe_update_thread_title`, silent where there is no such thread. -/
def titleEffects (t : State) (r : RunRequest) : List Effect :=
  match r.runThread, r.nextTitle with
  | some id, some title =>
    if (t.thread? id).isSome then [.updateTitle id title r.titleAt, .persistRow id] else []
  | _, _ => []

def runEffects (fault : Option Nat) (effects : List Effect) (t : State) : Bool × State :=
  Effects.run Effect.act fault effects t

/-- Whether the request is answered with success, and the state it leaves. A stream that fails in
its title update has been answered already. -/
def handle (t : State) (fault : Option Nat) : ThreadRequest → Bool × State
  | .create thread => runEffects fault (createEffects thread) t
  | .patch id title cardId updatedAt => runEffects fault (patchEffects id title cardId updatedAt) t
  | .delete id => runEffects fault (deleteEffects id) t
  | .run r =>
    match r.newThread with
    | none =>
      if r.rejected then (false, t) else (true, (runEffects fault (titleEffects t r) t).2)
    | some thread =>
      let ensured := runEffects fault (createEffects thread) t
      if !ensured.1 || r.rejected then (false, ensured.2)
      else
        (true, (runEffects (fault.map fun k => k - 2) (titleEffects ensured.2 r) ensured.2).2)

/-- The daemon with its clients; `told` is what the answers with success have said. -/
structure Served where
  db : State
  told : Text → Option Thread := fun _ => none

def Served.step (s : Served) (l : ThreadRequest × Option Nat) : Option Served :=
  let answer := handle s.db l.2 l.1
  match answer.1, l.1.threadId with
  | true, some id => some ⟨answer.2, Function.update s.told id (answer.2.thread? id)⟩
  | _, _ => some { s with db := answer.2 }

/-! Rows and manifests -/

/-- Rows and manifests agree, and every row can be encoded. -/
structure Agreed (t : State) : Prop where
  projects : ProjectsKept t
  threads : ThreadsKept t
  encoded : ∀ id row, t.thread? id = some row → row.encodes = true

theorem thread?_setThread {t : State} {id : Text} {f : Thread → Thread}
    (hf : ∀ row, (f row).threadId = row.threadId) (other : Text) :
    (t.setThread id f).thread? other =
      if id = other then (t.thread? id).map f else t.thread? other := by
  unfold State.setThread
  cases hrow : t.thread? id with
  | none =>
    by_cases heq : id = other
    · subst heq
      simp [hrow]
    · simp [heq]
  | some row =>
    have hkey : (f row).threadId = id := (hf row).trans (Rows.key_of_get Thread.threadId hrow)
    rw [State.thread?, Rows.get_put, hkey]
    rfl

theorem setThread_none {t : State} {id : Text} {f : Thread → Thread} (h : t.thread? id = none) :
    t.setThread id f = t := by
  unfold State.setThread
  rw [h]

@[simp] theorem setThread_projectIds (t : State) (id : Text) (f : Thread → Thread) :
    (t.setThread id f).projectIds = t.projectIds := by
  unfold State.setThread
  split <;> rfl

@[simp] theorem setThread_project (t : State) (id : Text) (f : Thread → Thread) :
    (t.setThread id f).project = t.project := by
  unfold State.setThread
  split <;> rfl

/-- The row of one thread has been written, and now its manifest is. -/
theorem Agreed.persist {t u : State} (h : Agreed t) {thread : Thread}
    (hids : u.projectIds = t.projectIds) (hproject : u.project = t.project)
    (hrows : ∀ id, u.thread? id = if thread.threadId = id then some thread else t.thread? id)
    (hencodes : thread.encodes = true) (hid : thread.projectId ∈ t.projectIds)
    (hold : ∀ old, t.thread? thread.threadId = some old → old.projectId = thread.projectId) :
    ∃ v, persistEncoded u thread = some v ∧ Agreed v ∧ ∀ id, v.thread? id = u.thread? id := by
  let p := u.project thread.projectId
  refine ⟨u.update thread.projectId
      { p with threadManifests := Rows.write Thread.threadId thread p.threadManifests },
    by rw [persistEncoded, if_pos hencodes, State.persistAiThread, if_pos (hids ▸ hid)],
    ⟨?_, h.threads.write hids hrows (fun id => ?_) hid hold, fun id row hrow => ?_⟩, fun _ => rfl⟩
  · refine h.projects.frame hids fun id => ?_
    rw [← hproject]
    exact update_same Project.manifest (by rfl) id
  · rw [threadManifests_update, hproject]
    split
    · rename_i heq
      rw [heq]
      exact congrArg (fun project => Rows.write Thread.threadId thread
        (project thread.projectId).threadManifests) hproject
    · rfl
  · have hrow' : u.thread? id = some row := hrow
    rw [hrows] at hrow'
    split at hrow'
    · cases hrow'
      exact hencodes
    · exact h.encoded id row hrow'

/-- The manifest of one thread has been removed, and now its row is. -/
theorem Agreed.remove {t : State} (h : Agreed t) {row : Thread} {id : Text}
    (hrow : t.thread? id = some row) :
    let p := t.project row.projectId
    Agreed { t.update row.projectId
        { p with threadManifests := Rows.drop Thread.threadId id p.threadManifests } with
      threads := Rows.drop Thread.threadId id t.threads } := by
  refine ⟨h.projects.frame rfl fun id => update_same Project.manifest (by rfl) id,
    h.threads.drop hrow rfl (fun other => Rows.get_drop Thread.threadId id other t.threads)
      fun other => ?_,
    fun other th hget => ?_⟩
  · show ((t.update row.projectId _).project other).threadManifests = _
    rw [threadManifests_update]
    split
    · rename_i heq
      rw [heq]
    · rfl
  · simp only [State.thread?, Rows.get_drop] at hget
    split at hget
    · cases hget
    · exact h.encoded other th hget

/-! One request -/

/-- An error leaves everything as it was, and an answer leaves rows and manifests in agreement
and the other threads alone. -/
structure Sound (t : State) (id? : Option Text) (answer : Bool × State) : Prop where
  agreed : Agreed answer.2
  refused : answer.1 = false → answer.2 = t
  frame : ∀ other, id? ≠ some other → answer.2.thread? other = t.thread? other

theorem Sound.same {t : State} (h : Agreed t) (id? : Option Text) (success : Bool) :
    Sound t id? (success, t) := ⟨h, fun _ => rfl, fun _ _ => rfl⟩

/-- The creation of a thread is not interrupted after its row. -/
def Creates (t : State) (fault : Option Nat) (thread : Thread) (rejected : Bool) : Prop :=
  (t.thread? thread.threadId).isSome = true ∨ fault = some 0 ∨
    (fault ≠ some 1 ∧ thread.projectId ∈ t.projectIds ∧ thread.encodes = true ∧ rejected = false)

def RunRequest.titled (r : RunRequest) (t : State) : Prop :=
  r.rejected = false ∧ ∀ id, r.threadId = some id → (t.thread? id).isSome = true

/-- No step of the request throws after one that has changed a row or a manifest, and a run that
has created a thread is not answered with an error. -/
def Undisturbed (t : State) (fault : Option Nat) : ThreadRequest → Prop
  | .create thread => Creates t fault thread false
  | .patch id title cardId updatedAt => (t.thread? id).isSome = true → fault = some 0 ∨
      Effects.Spares fault (patchEffects id title cardId updatedAt).length ∧
        (∀ text, title = some text → validUtf8 text.val = true) ∧
        ∀ card text, cardId = some card → card = some text → validUtf8 text.val = true
  | .delete id => (t.thread? id).isSome = true → fault ≠ some 1
  | .run r => (∀ thread, r.newThread = some thread → Creates t fault thread r.rejected) ∧
      ∀ title, r.nextTitle = some title → r.titled t → validUtf8 title.val = true ∧
        fault ≠ some (if r.newThread.isSome then 3 else 1)

theorem Agreed.create {t : State} (h : Agreed t) {fault : Option Nat} {thread : Thread}
    {rejected : Bool} (hok : Creates t fault thread rejected) :
    (runEffects fault (createEffects thread) t = (false, t)) ∨
      rejected = false ∧ fault ≠ some 0 ∧ fault ≠ some 1 ∧
      ∃ v, runEffects fault (createEffects thread) t = (true, v) ∧ Agreed v ∧
        ∀ id, v.thread? id = if thread.threadId = id then some thread else t.thread? id := by
  unfold runEffects createEffects
  by_cases hzero : fault = some 0
  · left
    rw [hzero]
    rfl
  cases hrow : t.thread? thread.threadId with
  | some row =>
    left
    exact Effects.run_throws (by simp [Effect.act, hrow])
  | none =>
    right
    rcases hok with hsome | hfault | ⟨hone, hid, hencodes, hrejected⟩
    · rw [hrow] at hsome
      cases hsome
    · exact absurd hfault hzero
    · have hrows := fun id => Rows.get_put Thread.threadId id thread t.threads
      obtain ⟨v, hv, hagreed, hget⟩ := h.persist
        (u := { t with threads := Rows.put Thread.threadId thread t.threads }) rfl rfl hrows
        hencodes hid (by simp [hrow])
      have hpersist : Effect.act { t with threads := Rows.put Thread.threadId thread t.threads }
          (.persist thread) = some v := hv
      refine ⟨hrejected, hzero, hone, v, ?_, hagreed, fun id => (hget id).trans (hrows id)⟩
      have hcreate : Effect.act t (.create thread) =
          some { t with threads := Rows.put Thread.threadId thread t.threads } := by
        simp [Effect.act, hrow]
      rw [Effects.run_goes hzero hcreate,
        Effects.run_goes (Effects.pred_ne_zero hzero hone) hpersist]
      rfl

theorem Agreed.persistRow {t u : State} (h : Agreed t) {id : Text} {row : Thread} (next : Thread)
    (hids : u.projectIds = t.projectIds) (hproject : u.project = t.project)
    (hrow : t.thread? id = some row) (hkey : next.threadId = row.threadId)
    (howner : next.projectId = row.projectId)
    (hrows : ∀ other, u.thread? other = if id = other then some next else t.thread? other)
    (hencodes : next.encodes = true) :
    ∃ v, Effect.act u (.persistRow id) = some v ∧ Agreed v ∧
      ∀ other, v.thread? other = u.thread? other := by
  have hid : next.threadId = id := hkey.trans (Rows.key_of_get Thread.threadId hrow)
  have hnextRows : ∀ other, u.thread? other =
      if next.threadId = other then some next else t.thread? other := fun other => by
    rw [hrows, hid]
  obtain ⟨v, hv, hagreed, hget⟩ := h.persist hids hproject hnextRows hencodes
    (howner ▸ (h.threads.live id row hrow).1)
    (fun old hold => by
      rw [hid, hrow] at hold
      cases hold
      exact howner.symm)
  refine ⟨v, ?_, hagreed, hget⟩
  have hnext : u.thread? id = some next := by rw [hrows, if_pos rfl]
  simp only [Effect.act, hnext, Option.bind_some]
  exact hv

theorem encodes_title {row : Thread} {title : Text} {updatedAt : Int64} (h : row.encodes = true)
    (htitle : validUtf8 title.val = true) :
    ({ row with title, updatedAt } : Thread).encodes = true := by
  simp only [Thread.encodes, Bool.and_eq_true] at h ⊢
  exact ⟨⟨h.1.1, htitle⟩, h.2⟩

theorem encodes_cardId {row : Thread} {cardId : Option Text} (h : row.encodes = true)
    (hcard : ∀ text, cardId = some text → validUtf8 text.val = true) :
    ({ row with cardId } : Thread).encodes = true := by
  simp only [Thread.encodes, Bool.and_eq_true] at h ⊢
  refine ⟨h.1, ?_⟩
  cases cardId with
  | none => rfl
  | some text => exact hcard text rfl

/-- The title update of one thread, interrupted before its first statement or not at all. -/
theorem Agreed.title {t : State} (h : Agreed t) {fault : Option Nat} {id title : Text}
    {updatedAt : Int64} (hrow : (t.thread? id).isSome = true) (htitle : validUtf8 title.val = true)
    (hfault : fault ≠ some 1) :
    Sound t (some id)
      (true, (runEffects fault [.updateTitle id title updatedAt, .persistRow id] t).2) := by
  obtain ⟨row, hrow⟩ := Option.isSome_iff_exists.mp hrow
  unfold runEffects
  by_cases hzero : fault = some 0
  · rw [hzero]
    exact .same h _ _
  have hrows : ∀ other, (t.setThread id fun row => { row with title, updatedAt }).thread? other =
      if id = other then (t.thread? id).map fun row => { row with title, updatedAt }
      else t.thread? other := thread?_setThread fun _ => rfl
  rw [hrow, Option.map_some] at hrows
  obtain ⟨v, hv, hagreed, hget⟩ := h.persistRow { row with title, updatedAt }
    (setThread_projectIds t id _) (setThread_project t id _) hrow rfl rfl hrows
    (encodes_title (h.encoded id row hrow) htitle)
  rw [Effects.run_goes hzero (t := t.setThread id fun row => { row with title, updatedAt }) rfl,
    Effects.run_goes (Effects.pred_ne_zero hzero hfault) hv]
  refine ⟨hagreed, fun hf => (by cases hf), fun other hne => ?_⟩
  show v.thread? other = _
  rw [hget, hrows, if_neg fun heq => hne (congrArg some heq)]

/-- The row after the first statement of a patch. -/
def patchedTitle (title : Option Text) (updatedAt : Int64) (row : Thread) : Thread :=
  { row with title := title.getD row.title, updatedAt }

/-- The row after all of them. -/
def patchedRow (title : Option Text) (cardId : Option (Option Text)) (updatedAt : Int64)
    (row : Thread) : Thread :=
  { patchedTitle title updatedAt row with cardId := cardId.getD row.cardId }

theorem patchedRow_encodes {title : Option Text} {cardId : Option (Option Text)}
    {updatedAt : Int64} {row : Thread} (h : row.encodes = true)
    (htitle : ∀ text, title = some text → validUtf8 text.val = true)
    (hcard : ∀ card text, cardId = some card → card = some text → validUtf8 text.val = true) :
    (patchedRow title cardId updatedAt row).encodes = true := by
  have hfirst : (patchedTitle title updatedAt row).encodes = true := by
    cases title with
    | none => exact h
    | some text => exact encodes_title h (htitle text rfl)
  cases cardId with
  | none => exact hfirst
  | some card => exact encodes_cardId hfirst fun text => hcard card text rfl

theorem Agreed.patch {t : State} (h : Agreed t) {fault : Option Nat} {id : Text}
    {title : Option Text} {cardId : Option (Option Text)} {updatedAt : Int64}
    (hok : Undisturbed t fault (.patch id title cardId updatedAt)) :
    Sound t (some id) (runEffects fault (patchEffects id title cardId updatedAt) t) := by
  unfold runEffects patchEffects
  by_cases hzero : fault = some 0
  · rw [hzero]
    exact .same h _ _
  have hfirst : Effect.act t (titleEffect id title updatedAt) =
      some (t.setThread id (patchedTitle title updatedAt)) := by
    cases title <;> rfl
  rw [Effects.run_goes hzero hfirst]
  cases hrow : t.thread? id with
  | none =>
    have hthrows : Effect.act t (.persistRow id) = none := by simp [Effect.act, hrow]
    rw [setThread_none hrow]
    cases cardId with
    | none =>
      rw [cardEffects, List.nil_append, Effects.run_throws hthrows]
      exact .same h _ _
    | some card =>
      rw [cardEffects, List.singleton_append]
      by_cases hone : fault.map Nat.pred = some 0
      · rw [hone]
        exact .same h _ _
      · have hcard : Effect.act t (.updateCardId id card) = some t :=
          congrArg some (setThread_none hrow)
        rw [Effects.run_goes hone hcard, Effects.run_throws hthrows]
        exact .same h _ _
  | some row =>
    obtain ⟨hspares, htitle, hcard⟩ := (hok (by simp [hrow])).resolve_left hzero
    have hrows : ∀ other, (t.setThread id (patchedTitle title updatedAt)).thread? other =
        if id = other then some (patchedTitle title updatedAt row) else t.thread? other := by
      intro other
      rw [thread?_setThread (f := patchedTitle title updatedAt) (fun _ => rfl), hrow,
        Option.map_some]
    have hencodes : (patchedRow title cardId updatedAt row).encodes = true :=
      patchedRow_encodes (h.encoded id row hrow) htitle hcard
    cases cardId with
    | none =>
      have hnext : fault.map Nat.pred ≠ some 0 := hspares.pred.ne_zero
      obtain ⟨v, hv, hagreed, hget⟩ := h.persistRow (patchedTitle title updatedAt row)
        (setThread_projectIds t id _) (setThread_project t id _) hrow rfl rfl hrows hencodes
      rw [cardEffects, List.nil_append, Effects.run_goes hnext hv]
      refine ⟨hagreed, fun hf => (by cases hf), fun other hne => ?_⟩
      show v.thread? other = _
      rw [hget, hrows, if_neg fun heq => hne (congrArg some heq)]
    | some card =>
      let u := (t.setThread id (patchedTitle title updatedAt)).setThread id
        fun row => { row with cardId := card }
      have hrows' : ∀ other, u.thread? other =
          if id = other then some (patchedRow title (some card) updatedAt row)
          else t.thread? other := by
        intro other
        rw [thread?_setThread (f := fun row => { row with cardId := card }) (fun _ => rfl), hrows,
          if_pos rfl, Option.map_some, hrows]
        split <;> rfl
      obtain ⟨v, hv, hagreed, hget⟩ := h.persistRow (patchedRow title (some card) updatedAt row)
        (by simp [u]) (by simp [u]) hrow rfl rfl hrows' hencodes
      have hsecond : Effect.act (t.setThread id (patchedTitle title updatedAt))
          (.updateCardId id card) = some u := rfl
      rw [cardEffects, List.singleton_append, Effects.run_goes hspares.pred.ne_zero hsecond,
        Effects.run_goes hspares.pred.pred.ne_zero hv]
      refine ⟨hagreed, fun hf => (by cases hf), fun other hne => ?_⟩
      show v.thread? other = _
      rw [hget, hrows', if_neg fun heq => hne (congrArg some heq)]

theorem Agreed.delete {t : State} (h : Agreed t) {fault : Option Nat} {id : Text}
    (hok : (t.thread? id).isSome = true → fault ≠ some 1) :
    Sound t (some id) (runEffects fault (deleteEffects id) t) := by
  unfold runEffects deleteEffects
  by_cases hzero : fault = some 0
  · rw [hzero]
    exact .same h _ _
  cases hrow : t.thread? id with
  | none =>
    rw [Effects.run_throws (by simp [Effect.act, hrow])]
    exact .same h _ _
  | some row =>
    have hone := hok (by simp [hrow])
    have hremove : Effect.act t (.removeManifest id) = some (t.update row.projectId
        { t.project row.projectId with
          threadManifests :=
            Rows.drop Thread.threadId id (t.project row.projectId).threadManifests }) := by
      simp only [Effect.act, hrow, Option.bind_some]
      rw [if_pos (h.threads.live id row hrow).1]
    have hdrop : ∀ u : State, Effect.act u (.remove id) =
        some { u with threads := Rows.drop Thread.threadId id u.threads } := fun _ => rfl
    rw [Effects.run_goes hzero hremove,
      Effects.run_goes (Effects.pred_ne_zero hzero hone) (hdrop _)]
    refine ⟨h.remove hrow, fun hf => (by cases hf), fun other hne => ?_⟩
    show Rows.get Thread.threadId other (Rows.drop Thread.threadId id t.threads) = _
    rw [Rows.get_drop, if_neg fun heq => hne (congrArg some heq.symm)]
    rfl

/-- The title update of a run, where its thread is there. -/
theorem Agreed.titled {t : State} (h : Agreed t) {fault : Option Nat} {r : RunRequest}
    (hok : ∀ title, r.nextTitle = some title →
      (∀ id, r.runThread = some id → (t.thread? id).isSome = true) →
        validUtf8 title.val = true ∧ fault ≠ some 1) :
    Sound t r.runThread (true, (runEffects fault (titleEffects t r) t).2) := by
  unfold titleEffects
  split
  · rename_i id title hid htitle
    split
    · rename_i hsome
      obtain ⟨hvalid, hfault⟩ := hok title htitle fun other hother => by
        rw [hid] at hother
        cases hother
        exact hsome
      rw [hid]
      exact h.title hsome hvalid hfault
    · exact .same h _ _
  · exact .same h _ _

theorem threadId_of_newThread {r : RunRequest} {thread : Thread} (h : r.newThread = some thread) :
    r.threadId = none := by
  unfold RunRequest.newThread at h
  split at h
  · assumption
  · cases h

theorem handle_sound {t : State} (h : Agreed t) {fault : Option Nat} {request : ThreadRequest}
    (hok : Undisturbed t fault request) : Sound t request.threadId (handle t fault request) := by
  cases request with
  | create thread =>
    rcases h.create hok with hsame | ⟨-, -, -, v, hrun, hagreed, hget⟩
    · simp only [handle, hsame]
      exact .same h _ _
    · simp only [handle, hrun]
      refine ⟨hagreed, fun hf => (by cases hf), fun other hne => ?_⟩
      show v.thread? other = _
      rw [hget, if_neg fun heq => hne (congrArg some heq)]
  | patch id title cardId updatedAt => exact h.patch hok
  | delete id => exact h.delete hok
  | run r =>
    obtain ⟨hcreate, htitle⟩ := hok
    cases hnew : r.newThread with
    | none =>
      simp only [handle, hnew]
      split
      · exact .same h _ _
      · rename_i hrejected
        rw [Bool.not_eq_true] at hrejected
        refine h.titled fun title ht hsome => ?_
        rw [hnew] at htitle
        refine htitle title ht ⟨hrejected, fun id hid => hsome id ?_⟩
        rw [RunRequest.runThread, hid]
    | some thread =>
      have hfresh := threadId_of_newThread hnew
      have hthread : r.runThread = some thread.threadId := by
        rw [RunRequest.runThread, hfresh, hnew]
        rfl
      rcases h.create (hcreate thread hnew) with hsame |
        ⟨hrejected, hzero, hone, v, hrun, hagreed, hget⟩
      · simp only [handle, hnew, hsame]
        exact .same h _ _
      · have htitled : Sound v r.runThread
            (true, (runEffects (fault.map fun k => k - 2) (titleEffects v r) v).2) := by
          refine hagreed.titled fun title ht _ => ?_
          obtain ⟨hvalid, hfault⟩ := htitle title ht ⟨hrejected, fun id hid => by
            rw [hfresh] at hid
            cases hid⟩
          refine ⟨hvalid, fun hmap => ?_⟩
          obtain ⟨k, rfl, hk⟩ := Option.map_eq_some_iff.mp hmap
          rw [hnew, Option.isSome_some, if_pos rfl] at hfault
          exact hfault (congrArg some (by omega))
        simp only [handle, hnew, hrun, hrejected, Bool.not_true, Bool.or_self, Bool.false_eq_true,
          if_false]
        refine ⟨htitled.agreed, fun hf => (by cases hf), fun other hne => ?_⟩
        rw [htitled.frame other hne, hget, if_neg]
        rintro rfl
        exact hne hthread

/-! Runs of requests -/

/-- What clients were told is what the rows hold. -/
structure Serves (s : Served) : Prop where
  agreed : Agreed s.db
  told : ∀ id, s.told id = s.db.thread? id

theorem Serves.step {s s' : Served} {l : ThreadRequest × Option Nat} (h : Serves s)
    (hok : Undisturbed s.db l.2 l.1) (hstep : s.step l = some s') : Serves s' := by
  have hsound := handle_sound h.agreed hok
  simp only [Served.step] at hstep
  split at hstep
  · rename_i id hsuccess hid
    cases hstep
    refine ⟨hsound.agreed, fun other => ?_⟩
    dsimp only
    by_cases heq : other = id
    · rw [heq, Function.update_self]
    · rw [Function.update_of_ne heq, h.told]
      refine (hsound.frame other fun hother => heq ?_).symm
      rw [hid] at hother
      exact (Option.some.inj hother).symm
  · rename_i hother
    cases hstep
    refine ⟨hsound.agreed, fun other => ?_⟩
    rw [h.told]
    cases hsuccess : (handle s.db l.2 l.1).1 with
    | false => rw [hsound.refused hsuccess]
    | true =>
      refine (hsound.frame other fun hid => ?_).symm
      exact hother other hsuccess hid

theorem agreed_of_fresh {t : State} (h : Fresh t) : Agreed t where
  projects := ⟨h.named, h.manifest⟩
  threads := ⟨by simp [h.threads], fun id hid thread hmem => by
    simp [h.threadManifests id hid] at hmem⟩
  encoded := by simp [State.thread?, h.threads]

/-- Where no request is disturbed, clients, rows, manifests and the threads that a rebuild finds
agree in every state, and a request answered with an error changes nothing. -/
theorem threads_durable {t : State} {requests : List (ThreadRequest × Option Nat)} {s : Served}
    (hstart : Fresh t)
    (hok : Machine.Along Served.step (fun s l => Undisturbed s.db l.2 l.1) ⟨t, fun _ => none⟩
      requests)
    (hrun : Machine.run Served.step ⟨t, fun _ => none⟩ requests = some s) :
    (∀ id, s.db.thread? id = s.told id) ∧
      (∀ thread, s.told thread.threadId = some thread ↔
        ∃ projectId ∈ s.db.projectIds, thread ∈ (s.db.project projectId).threadManifests) ∧
      (∀ id, Rows.get Thread.threadId id (rebuilt s.db).threads = s.told id) ∧
      ∀ request fault, Undisturbed s.db fault request →
        (handle s.db fault request).1 = false → (handle s.db fault request).2 = s.db := by
  have h : Serves s := Machine.run_invariant_along Served.step
    (fun _ _ _ h hl hs => h.step hl hs)
    ⟨agreed_of_fresh hstart, by simp [State.thread?, hstart.threads]⟩ hok hrun
  refine ⟨fun id => (h.told id).symm, fun thread => ⟨fun htold => ?_, fun hfile => ?_⟩,
    fun id => ?_, fun request fault hreq => (handle_sound h.agreed hreq).refused⟩
  · rw [h.told] at htold
    exact ⟨_, h.agreed.threads.live _ thread htold⟩
  · obtain ⟨projectId, hid, hmem⟩ := hfile
    rw [h.told]
    exact (h.agreed.threads.manifests projectId hid thread hmem).2
  · rw [get_rebuilt h.agreed.projects h.agreed.threads, h.told]
    rfl

/-! One project -/

def emptyProject : State where
  projectIds := [cString (ascii "p1")]
  project := fun _ => ⟨.plain, none, true, [], []⟩

theorem fresh_emptyProject : Fresh emptyProject where
  named := by decide
  manifest := fun _ _ => rfl
  threadManifests := fun _ _ => rfl
  files := fun _ _ => rfl
  threads := rfl
  states := rfl
  nudges := rfl

def newRun (prompt : Bytes) (rejected : Bool) : ThreadRequest :=
  .run { projectId := some (cString (ascii "p1")), prompt := cString prompt,
         uuid := cString (ascii "t1"), now := 5, rejected }

/-- A prompt whose 80th byte is inside a character: the row is made and cannot be written to its
manifest. And a prompt that can be written, in a request that is then rejected. -/
theorem failed_run_keeps_thread :
    (let cut := handle emptyProject none (newRun (List.replicate 79 97 ++ [0xC3, 0xA9]) false);
      cut.1 = false ∧ (cut.2.thread? (cString (ascii "t1"))).isSome = true ∧
        (rebuilt cut.2).threads = []) ∧
    (let refused := handle emptyProject none (newRun (ascii "hello") true);
      refused.1 = false ∧ (refused.2.thread? (cString (ascii "t1"))).isSome = true ∧
        (rebuilt refused.2).threads.length = 1) := by
  decide +kernel

def firstThread : Thread where
  threadId := cString (ascii "t1")
  projectId := cString (ascii "p1")
  cardId := none
  title := cString (ascii "First")
  createdAt := 5
  updatedAt := 5

/-- A thread is created, and a patch of it fails at its first statement. -/
def firstRequests : List (ThreadRequest × Option Nat) :=
  [(.create firstThread, none), (.patch firstThread.threadId none none 6, some 0)]

theorem threads_durable_first :
    ∃ s, Machine.run Served.step ⟨emptyProject, fun _ => none⟩ firstRequests = some s ∧
      s.db.thread? firstThread.threadId = some firstThread ∧
      Rows.get Thread.threadId firstThread.threadId (rebuilt s.db).threads = some firstThread := by
  obtain ⟨s, hrun, htest⟩ := Machine.run_of_any Served.step ⟨emptyProject, fun _ => none⟩
    firstRequests (fun s => decide (s.db.thread? firstThread.threadId = some firstThread))
    (by decide +kernel)
  have hrow := of_decide_eq_true htest
  have hcreate : Creates emptyProject none firstThread false :=
    .inr (.inr ⟨by decide, by decide, by decide +kernel, rfl⟩)
  have hok : Machine.Along Served.step (fun s l => Undisturbed s.db l.2 l.1)
      ⟨emptyProject, fun _ => none⟩ firstRequests :=
    ⟨hcreate, fun _ _ => ⟨fun _ => .inl rfl, fun _ _ => trivial⟩⟩
  have hdurable := threads_durable fresh_emptyProject hok hrun
  exact ⟨s, hrun, hrow, by rw [hdurable.2.2.1, ← hdurable.1, hrow]⟩

end AiDurability

end HolderDaemon
