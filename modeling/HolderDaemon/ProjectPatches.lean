import HolderDaemon.ObjectPatches
import HolderDaemon.Stages

/-!
PATCH of a project (`api/routes/ProjectRoutes.cpp`): each field of the body is read when it is its
turn, and written at once; the calls to Git, to the encryption and to the registry come last.

The repository, Git, and the encryption are not part of the daemon's sources. What is relied on of
them is that an update sets its own column, that getting an encrypted project ready changes no more
than its key, and that a call that throws has not changed the project.
-/

set_option autoImplicit false

open Bytes
open Json (of_bind_ok)
open Stages (orRefuse)

namespace HolderDaemon

namespace ProjectPatches

structure Project where
  name : Bytes
  rootPath : Bytes
  gitProvider : Option Bytes
  privacyMode : Bytes
  projectKeyId : Option Bytes
  gitRemoteUrl : Option Bytes
  deriving DecidableEq

inductive Field where
  | name | rootPath | gitProvider | privacyMode | projectKeyId | gitRemoteUrl
  deriving DecidableEq

def Project.field (p : Project) : Field → Option Bytes
  | .name => some p.name
  | .rootPath => some p.rootPath
  | .gitProvider => p.gitProvider
  | .privacyMode => some p.privacyMode
  | .projectKeyId => p.projectKeyId
  | .gitRemoteUrl => p.gitRemoteUrl

/-- The updates of `ProjectRepo`. -/
inductive Write where
  | name (name : Bytes)
  | rootPath (rootPath : Bytes)
  | gitProvider (provider : Option Bytes)
  | privacyMode (mode : Bytes)
  | projectKeyId (keyId : Option Bytes)
  | gitRemote (url : Option Bytes)
  deriving DecidableEq

def Write.field : Write → Field
  | .name _ => .name
  | .rootPath _ => .rootPath
  | .gitProvider _ => .gitProvider
  | .privacyMode _ => .privacyMode
  | .projectKeyId _ => .projectKeyId
  | .gitRemote _ => .gitRemoteUrl

def Write.value : Write → Option Bytes
  | .name v => some v
  | .rootPath v => some v
  | .gitProvider v => v
  | .privacyMode v => some v
  | .projectKeyId v => v
  | .gitRemote v => v

def Write.apply : Write → Project → Project
  | .name v, p => { p with name := v }
  | .rootPath v, p => { p with rootPath := v }
  | .gitProvider v, p => { p with gitProvider := v }
  | .privacyMode v, p => { p with privacyMode := v }
  | .projectKeyId v, p => { p with projectKeyId := v }
  | .gitRemote v, p => { p with gitRemoteUrl := v }

theorem field_apply (w : Write) (p : Project) (f : Field) :
    (w.apply p).field f = if f = w.field then w.value else p.field f := by
  cases w <;> cases f <;> rfl

inductive Call where
  | lockOperation (repoRoot : Bytes)
  | openOrInit (repoRoot : Bytes)
  | removeRemote (remote : Bytes)
  | setRemote (remote url : Bytes)
  | writeProjectManifest
  | commit (message : Bytes)
  | remember
  deriving DecidableEq

/-- The code that is called, at the project of the request. -/
structure Callees where
  write : Write → Int64 → Project → Except Bytes Project
  call : Call → Project → Except Bytes Unit
  ensureEncryptedProjectReady : Bytes → Option Bytes → Int64 → Project → Except Bytes Project
  write_eq : ∀ {w time p q}, write w time p = .ok q → q = w.apply p
  ensure_field : ∀ {root key time p q}, ensureEncryptedProjectReady root key time p = .ok q →
    ∀ f, f ≠ .projectKeyId → q.field f = p.field f

inductive Stage where
  | refuse (what : Bytes)
  | write (w : Write) (updatedAt : Int64)
  | call (c : Call)
  | ensureReady (repoRoot : Bytes) (projectKeyId : Option Bytes) (updatedAt : Int64)

/-! The handler -/

abbrev Request := ObjectPatches.PatchRequest

/-- `contains(key) && !at(key).is_null()`. -/
def givenField (body : Json) (key : String) : Option Json :=
  match body.field? (ascii key) with
  | some .null => none
  | field => field

/-- A string, or none for null. -/
def nullable : Json → Except Bytes (Option Bytes)
  | .null => .ok none
  | j => j.getString.map some

def isValidPrivacyMode (mode : Bytes) : Bool :=
  mode = ascii "encrypted_git" || mode = ascii "plain"

/-- A field, where the body has it, is read and written. -/
def writeStages {α : Type} (read : Json → Except Bytes α) (write : α → Write) (updatedAt : Int64) :
    Option Json → List Stage
  | none => []
  | some j => orRefuse .refuse do .ok [.write (write (← read j)) updatedAt]

def readPrivacyMode (j : Json) : Except Bytes Bytes := do
  let mode ← j.getString
  if isValidPrivacyMode mode then .ok mode
  else .error (ascii "privacy_mode must be encrypted_git or plain.")

def remoteStages (repoRoot : Bytes) (updatedAt : Int64) : Option Json → List Stage
  | none => []
  | some j => orRefuse .refuse do
    let remote ← nullable j
    let change : Call := match remote with
      | none => .removeRemote (ascii "origin")
      | some url => .setRemote (ascii "origin") url
    .ok [.call (.openOrInit repoRoot), .call change, .write (.gitRemote remote) updatedAt]

/-- A field, or what stands for it where the body does not have it. -/
def readOr {α : Type} (read : Json → Except Bytes α) (old : α) : Option Json → Except Bytes α
  | some j => read j
  | none => .ok old

/-- Both fields are read once more, or else they are those of the project as it was. -/
def readReady (body : Json) (p : Project) (repoRoot : Bytes) (updatedAt : Int64) :
    Except Bytes (List Stage) := do
  let mode ← readOr Json.getString p.privacyMode (givenField body "privacy_mode")
  let keyId ← readOr nullable p.projectKeyId (body.field? (ascii "project_key_id"))
  .ok (if mode = ascii "encrypted_git" then [.ensureReady repoRoot keyId updatedAt] else [])

def updates (body : Json) (repoRoot : Bytes) (updatedAt : Int64) : List Stage :=
  writeStages Json.getString .name updatedAt (givenField body "name") ++
  writeStages Json.getString .rootPath updatedAt (givenField body "root_path") ++
  writeStages nullable .gitProvider updatedAt (body.field? (ascii "git_provider")) ++
  writeStages readPrivacyMode .privacyMode updatedAt (givenField body "privacy_mode") ++
  writeStages nullable .projectKeyId updatedAt (body.field? (ascii "project_key_id")) ++
  remoteStages repoRoot updatedAt (body.field? (ascii "git_remote_url"))

def publication : List Stage :=
  [.call .writeProjectManifest, .call (.commit (ascii "Update project metadata")), .call .remember]

/-- The body with its `updated_at`, before the project is looked up. -/
def readBody (r : Request) : Except Bytes (Json × Int64) := do
  let body ← r.body
  match body.field? (ascii "updated_at") with
  | none => .error (ascii "Missing required fields.")
  | some time =>
    let updatedAt ← r.getTime time
    if (givenField body "name").isNone && (givenField body "root_path").isNone &&
        !body.contains (ascii "git_remote_url") && !body.contains (ascii "git_provider") &&
        (givenField body "privacy_mode").isNone && !body.contains (ascii "project_key_id") then
      .error (ascii "No fields to update.")
    else .ok (body, updatedAt)

def readStages (r : Request) (p : Project) : Except Bytes (List Stage) := do
  let (body, updatedAt) ← readBody r
  let repoRoot ← readOr Json.getString p.rootPath (givenField body "root_path")
  .ok (.call (.lockOperation repoRoot) :: (updates body repoRoot updatedAt ++
    orRefuse .refuse (readReady body p repoRoot updatedAt) ++ publication))

/-- What the handler does with the project, in its order. -/
def stages (r : Request) (p : Project) : List Stage := orRefuse .refuse (readStages r p)

def Callees.act (callees : Callees) : Stage → Project → Except Bytes Project
  | .refuse what, _ => .error what
  | .write w updatedAt, p => callees.write w updatedAt p
  | .call c, p => (callees.call c p).map fun _ => p
  | .ensureReady repoRoot keyId updatedAt, p =>
    callees.ensureEncryptedProjectReady repoRoot keyId updatedAt p

/-- The text of the error, if any, and the project after the request; none where there is no such
project. -/
def patch (r : Request) (callees : Callees) : Option Project → Except Bytes Unit × Option Project
  | none => ((readBody r).bind fun _ => .error (ascii "Project not found."), none)
  | some p =>
    let (outcome, left) := Stages.run callees.act (stages r p) p
    (outcome, some left)

/-! What is written -/

def Stage.writes : Stage → Option Write
  | .write w _ => some w
  | _ => none

def writesOf (done : List Stage) : List Write := done.filterMap Stage.writes

theorem writesOf_append (done rest : List Stage) :
    writesOf (done ++ rest) = writesOf done ++ writesOf rest := List.filterMap_append

theorem fields_writeStages {α : Type} (read : Json → Except Bytes α) (write : α → Write) {f : Field}
    (hf : ∀ a, (write a).field = f) (updatedAt : Int64) (field : Option Json) :
    ((writesOf (writeStages read write updatedAt field)).map Write.field).Sublist [f] := by
  cases field with
  | none => exact List.nil_sublist [f]
  | some j =>
    rw [writeStages]
    cases hread : read j with
    | error what => exact List.nil_sublist [f]
    | ok a =>
      change [(write a).field].Sublist [f]
      rw [hf]

theorem fields_remoteStages (repoRoot : Bytes) (updatedAt : Int64) (field : Option Json) :
    ((writesOf (remoteStages repoRoot updatedAt field)).map Write.field).Sublist
      [.gitRemoteUrl] := by
  cases field with
  | none => exact List.nil_sublist _
  | some j =>
    rw [remoteStages]
    cases hread : nullable j with
    | error what => exact List.nil_sublist _
    | ok remote => exact List.Sublist.refl _

theorem writesOf_readReady (body : Json) (p : Project) (repoRoot : Bytes) (updatedAt : Int64) :
    writesOf (orRefuse .refuse (readReady body p repoRoot updatedAt)) = [] := by
  cases hreads : readReady body p repoRoot updatedAt with
  | error what => rfl
  | ok list =>
    obtain ⟨mode, -, hreads⟩ := of_bind_ok hreads
    obtain ⟨keyId, -, hreads⟩ := of_bind_ok hreads
    rw [orRefuse, ← Except.ok.inj hreads]
    split
    · rfl
    · rfl

def allFields : List Field :=
  [.name, .rootPath, .gitProvider, .privacyMode, .projectKeyId, .gitRemoteUrl]

theorem fields_updates (body : Json) (repoRoot : Bytes) (updatedAt : Int64) :
    ((writesOf (updates body repoRoot updatedAt)).map Write.field).Sublist allFields := by
  have hname := fields_writeStages Json.getString .name (fun _ => rfl) updatedAt
    (givenField body "name")
  have hroot := fields_writeStages Json.getString .rootPath (fun _ => rfl) updatedAt
    (givenField body "root_path")
  have hprovider := fields_writeStages nullable .gitProvider (fun _ => rfl) updatedAt
    (body.field? (ascii "git_provider"))
  have hmode := fields_writeStages readPrivacyMode .privacyMode (fun _ => rfl) updatedAt
    (givenField body "privacy_mode")
  have hkey := fields_writeStages nullable .projectKeyId (fun _ => rfl) updatedAt
    (body.field? (ascii "project_key_id"))
  have hremote := fields_remoteStages repoRoot updatedAt (body.field? (ascii "git_remote_url"))
  simp only [updates, writesOf_append, List.map_append]
  exact ((((hname.append hroot).append hprovider).append hmode).append hkey).append hremote

/-- A request writes no field twice. -/
theorem fields_nodup (r : Request) (p : Project) :
    ((writesOf (stages r p)).map Write.field).Nodup := by
  unfold stages
  cases hreads : readStages r p with
  | error what => exact List.nodup_nil
  | ok list =>
    obtain ⟨⟨body, updatedAt⟩, -, hreads⟩ := of_bind_ok hreads
    obtain ⟨repoRoot, -, hreads⟩ := of_bind_ok hreads
    have hlist : writesOf list = writesOf (updates body repoRoot updatedAt) := by
      rw [← Except.ok.inj hreads]
      change writesOf (updates body repoRoot updatedAt ++
        orRefuse .refuse (readReady body p repoRoot updatedAt) ++ publication) = _
      rw [writesOf_append, writesOf_append, writesOf_readReady, List.append_nil]
      exact List.append_nil _
    rw [orRefuse, hlist]
    exact (fields_updates body repoRoot updatedAt).nodup (by decide)

/-! All or nothing -/

/-- A stage that goes through has set the field that it writes, and no other one of those that the
request may change. -/
theorem act_field {callees : Callees} {stage : Stage} {p q : Project}
    (h : callees.act stage p = .ok q) {f : Field} (hf : f ≠ .projectKeyId) :
    q.field f = match stage.writes with
      | some w => if f = w.field then w.value else p.field f
      | none => p.field f := by
  cases stage with
  | refuse what => cases h
  | write w updatedAt => rw [callees.write_eq h, field_apply, Stage.writes]
  | call c =>
    change (callees.call c p).map (fun _ => p) = .ok q at h
    cases hcall : callees.call c p with
    | error what =>
      rw [hcall] at h
      cases h
    | ok _ =>
      rw [hcall] at h
      cases h
      rfl
  | ensureReady repoRoot keyId updatedAt => exact callees.ensure_field h f hf

/-- After a part of a request a field has the value that was written, or else the one it had. -/
theorem through_field {callees : Callees} {done : List Stage} {p q : Project}
    (h : Stages.Through callees.act done p q)
    (hnodup : ((writesOf done).map Write.field).Nodup) {f : Field} (hf : f ≠ .projectKeyId) :
    (∀ w ∈ writesOf done, w.field = f → q.field f = w.value) ∧
      ((∀ w ∈ writesOf done, w.field ≠ f) → q.field f = p.field f) := by
  induction done generalizing p with
  | nil =>
    cases h
    exact ⟨fun w hw => absurd hw List.not_mem_nil, fun _ => rfl⟩
  | cons stage done ih =>
    obtain ⟨u, hact, hthrough⟩ := h
    have hfield := act_field hact hf
    cases hwrites : stage.writes with
    | none =>
      have hrest : writesOf (stage :: done) = writesOf done := List.filterMap_cons_none hwrites
      rw [hrest] at hnodup ⊢
      rw [hwrites] at hfield
      replace hfield : u.field f = p.field f := hfield
      rw [← hfield]
      exact ih hthrough hnodup
    | some w =>
      have hrest : writesOf (stage :: done) = w :: writesOf done :=
        List.filterMap_cons_some hwrites
      rw [hrest] at hnodup ⊢
      rw [List.map_cons, List.nodup_cons] at hnodup
      rw [hwrites] at hfield
      replace hfield : u.field f = if f = w.field then w.value else p.field f := hfield
      obtain ⟨hwritten, hkept⟩ := ih hthrough hnodup.2
      refine ⟨fun v hv hvf => ?_, fun hnone => ?_⟩
      · rcases List.mem_cons.mp hv with rfl | hv
        · have hlater : ∀ x ∈ writesOf done, x.field ≠ f := fun x hx hxf =>
            hnodup.1 (List.mem_map.mpr ⟨x, hx, hxf.trans hvf.symm⟩)
          rw [hkept hlater, hfield, if_pos hvf.symm]
        · exact hwritten v hv hvf
      · rw [List.forall_mem_cons] at hnone
        rw [hkept hnone.2, hfield, if_neg (Ne.symm hnone.1)]

/-- Before the place where a request is stopped it writes no more than what the project had. -/
def Harmless (callees : Callees) (r : Request) (p : Project) : Prop :=
  ∀ done left, Stages.ThrowsAfter callees.act (stages r p) done p left →
    ∀ w ∈ writesOf done, w.field ≠ .projectKeyId → w.value = p.field w.field

/-- The fields of the project other than its key. -/
def Project.view (p : Project) (f : Field) : Option Bytes :=
  if f = .projectKeyId then none else p.field f

theorem view_eq_iff (p q : Project) :
    p.view = q.view ↔ ∀ f, f ≠ .projectKeyId → p.field f = q.field f := by
  rw [funext_iff]
  refine forall_congr' fun f => ?_
  unfold Project.view
  by_cases hf : f = .projectKeyId
  · rw [if_pos hf, if_pos hf]
    exact iff_of_true rfl fun hne => absurd hf hne
  · rw [if_neg hf, if_neg hf]
    exact ⟨fun h _ => h, fun h => h hf⟩

theorem patch_some (r : Request) (callees : Callees) (p : Project) :
    patch r callees (some p) = ((Stages.run callees.act (stages r p) p).1,
      some (Stages.run callees.act (stages r p) p).2) := rfl

/-- A request that is answered with success has written all of its fields, and no other one. -/
theorem patch_ok {callees : Callees} {r : Request} {p left : Project}
    (h : patch r callees (some p) = (.ok (), some left)) {f : Field} (hf : f ≠ .projectKeyId) :
    (∀ w ∈ writesOf (stages r p), w.field = f → left.field f = w.value) ∧
      ((∀ w ∈ writesOf (stages r p), w.field ≠ f) → left.field f = p.field f) := by
  rw [patch_some, Prod.mk.injEq, Option.some.injEq] at h
  obtain ⟨hok, hleft⟩ := h
  exact through_field (Stages.run_ok_iff.mp (Prod.ext hok hleft)) (fields_nodup r p) hf

/-- A request that is answered with an error has left the name, the root path, the provider, the
remote and the privacy mode as they were, exactly where what it wrote before it was stopped was
there already. -/
theorem project_allOrNothing_iff (callees : Callees) (r : Request) (p : Project) :
    (∀ what left, patch r callees (some p) = (.error what, some left) →
        ∀ f, f ≠ .projectKeyId → left.field f = p.field f) ↔
      Harmless callees r p := by
  have hstages := @Stages.allOrNothing_iff _ _ _ callees.act _ Project.view (stages r p) p
  have hstatement : (∀ what left, patch r callees (some p) = (.error what, some left) →
      ∀ f, f ≠ .projectKeyId → left.field f = p.field f) ↔
      Stages.AllOrNothing callees.act Project.view (stages r p) p := by
    refine forall_congr' fun what => ⟨fun h herror => ?_, fun h left hpatch => ?_⟩
    · exact (view_eq_iff _ p).mpr (h _ (by rw [patch_some, herror]))
    · rw [patch_some, Prod.mk.injEq, Option.some.injEq] at hpatch
      obtain ⟨herror, rfl⟩ := hpatch
      exact (view_eq_iff _ p).mp (h herror)
  rw [hstatement, hstages]
  refine forall_congr' fun done => forall_congr' fun left => forall_congr' fun hthrows => ?_
  obtain ⟨hthrough, stage, rest, what, hlist, -⟩ := hthrows
  have hnodup : ((writesOf done).map Write.field).Nodup := by
    have hall := fields_nodup r p
    rw [hlist, writesOf_append, List.map_append] at hall
    exact hall.of_append_left
  rw [view_eq_iff]
  constructor
  · intro h w hw hf
    rw [← (through_field hthrough hnodup hf).1 w hw rfl]
    exact h w.field hf
  · intro h f hf
    obtain ⟨hwritten, hkept⟩ := through_field hthrough hnodup hf
    by_cases hany : ∃ w ∈ writesOf done, w.field = f
    · obtain ⟨w, hw, rfl⟩ := hany
      rw [hwritten w hw rfl, h w hw hf]
    · exact hkept fun w hw hwf => hany ⟨w, hw, hwf⟩

/-! A privacy mode that there is not -/

/-- Calls that do what they are for. -/
def plainCallees : Callees where
  write w _ p := .ok (w.apply p)
  call _ _ := .ok ()
  ensureEncryptedProjectReady _ _ _ p := .ok p
  write_eq h := (Except.ok.inj h).symm
  ensure_field h _ _ := by rw [Except.ok.inj h]

def garden : Project where
  name := ascii "Garden"
  rootPath := ascii "/srv/garden"
  gitProvider := none
  privacyMode := ascii "plain"
  projectKeyId := none
  gitRemoteUrl := none

def renamedAndSecret : Request where
  body := .ok (.obj [(ascii "name", .str (ascii "Park")),
    (ascii "privacy_mode", .str (ascii "secret")), (ascii "updated_at", .int 2)])
  now := 2

theorem patch_leaves_name :
    ¬ ∀ (callees : Callees) (r : Request) (p : Project) (what : Bytes) (left : Project),
      patch r callees (some p) = (.error what, some left) →
      ∀ f, f ≠ .projectKeyId → left.field f = p.field f := by
  intro h
  have hname := h plainCallees renamedAndSecret garden
    (ascii "privacy_mode must be encrypted_git or plain.") { garden with name := ascii "Park" }
    (by decide +kernel) .name (by decide)
  exact absurd hname (by decide)

end ProjectPatches

end HolderDaemon
