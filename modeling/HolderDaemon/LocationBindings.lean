import HolderDaemon.Assoc
import HolderDaemon.Bytes
import HolderDaemon.Effects
import HolderDaemon.Machine

/-!
Storage locations and their secrets (`api/routes/AiResourceRoutes.cpp`, and the connection of
`api/routes/GoogleDriveOAuthRoutes.cpp`). A location is a record of its project; its binding, and
which location a project prefers, are entries of the secret store. A request calls the two stores
one after the other, and any call may throw.
-/

set_option autoImplicit false

open Bytes

namespace HolderDaemon

namespace Locations

structure Location where
  locationId : Bytes
  projectId : Bytes
  name : Bytes
  provider : Bytes
  configuration : List (Bytes × Bytes) := []

structure LocationBinding where
  provider : Bytes
  values : List (Bytes × Bytes)
  preview : Bytes

/-- `attempts` are the projects of the pending connections; `secrets` tells whether the daemon has
a secret store. -/
structure State where
  secrets : Bool := true
  location : Bytes → Option Location := fun _ => none
  binding : Bytes → Bytes → Option LocationBinding := fun _ _ => none
  preferred : Bytes → Option Bytes := fun _ => none
  attempts : Bytes → Option Bytes := fun _ => none

def State.setBinding (s : State) (projectId locationId : Bytes) (b : Option LocationBinding) :
    State :=
  { s with
    binding := Function.update s.binding projectId
      (Function.update (s.binding projectId) locationId b) }

inductive Call where
  /-- One that changes nothing. -/
  | read
  | put (location : Location)
  | remove (locationId : Bytes)
  | setPreferred (projectId locationId : Bytes)
  | clearPreferred (projectId : Bytes)
  | bind (projectId locationId : Bytes) (binding : LocationBinding)
  | unbind (projectId locationId : Bytes)

def Call.apply (s : State) : Call → State
  | .read => s
  | .put location =>
    { s with location := Function.update s.location location.locationId (some location) }
  | .remove locationId => { s with location := Function.update s.location locationId none }
  | .setPreferred projectId locationId =>
    { s with preferred := Function.update s.preferred projectId (some locationId) }
  | .clearPreferred projectId =>
    { s with preferred := Function.update s.preferred projectId none }
  | .bind projectId locationId binding => s.setBinding projectId locationId (some binding)
  | .unbind projectId locationId => s.setBinding projectId locationId none

/-- The location requests, each with what its body or its exchange was read as; none where that
throws. -/
inductive Request where
  | create (location : Option Location)
  | patch (locationId : Bytes) (edit : Option (Option Bytes × Option (List (Bytes × Bytes))))
  | delete (locationId : Bytes)
  | bind (locationId : Bytes) (body : Option (List (Bytes × Bytes) × Bytes))
  | unbind (locationId : Bytes)
  | prefer (body : Option (Bytes × Bytes))
  | authorize (locationId : Bytes)
  /-- The folder and the refresh token of the exchange, where the checks let it happen. -/
  | callback (locationId : Bytes) (exchanged : Option (Bytes × Bytes))

def googleDrive : Bytes := ascii "google-drive"

/-- The calls after the location has been removed. -/
def releaseCalls (s : State) (projectId locationId : Bytes) : List Call :=
  if s.secrets then
    .read :: ((if s.preferred projectId = some locationId then [.clearPreferred projectId] else []) ++
      [.unbind projectId locationId])
  else []

def unbindCalls (s : State) (projectId locationId : Bytes) : List Call :=
  [.unbind projectId locationId, .read] ++
    if s.preferred projectId = some locationId then [.clearPreferred projectId] else []

/-- The calls that a request makes of a location that is there, after it has been looked up; none
where a check throws. -/
def Request.calls (s : State) (l : Location) : Request → Option (List Call)
  | .delete id => some (.remove id :: releaseCalls s l.projectId id)
  | .patch _ edit => edit.map fun e =>
    [.put { l with name := e.1.getD l.name, configuration := e.2.getD l.configuration }]
  | .bind id body =>
    if s.secrets then body.map fun b => [.bind l.projectId id ⟨l.provider, b.1, b.2⟩] else none
  | .unbind id => if s.secrets then some (unbindCalls s l.projectId id) else none
  | .prefer body =>
    if s.secrets then
      body.bind fun b => if l.projectId = b.1 then some [.setPreferred b.1 b.2] else none
    else none
  | .callback id exchanged =>
    if s.secrets then
      (s.attempts id).bind fun projectId => exchanged.map fun e =>
        [.put { l with configuration := Assoc.set (ascii "folder_id") e.1 l.configuration },
          .bind projectId id ⟨googleDrive, [(ascii "refresh_token", e.2)], ascii "Connected"⟩]
    else none
  | _ => none

def Request.locationId : Request → Bytes
  | .create location => (location.map Location.locationId).getD []
  | .patch id _ => id
  | .delete id => id
  | .bind id _ => id
  | .unbind id => id
  | .prefer body => (body.map Prod.snd).getD []
  | .authorize id => id
  | .callback id _ => id

def runCalls (fault : Option Nat) (calls : List Call) (s : State) : Bool × State :=
  Effects.run (fun s c => some (Call.apply s c)) fault calls s

/-- A request on one location. -/
def State.onLocation (s : State) (r : Request) (fault : Option Nat) : Bool × State :=
  match s.location r.locationId with
  | none => (false, s)
  | some l =>
    match r.calls s l with
    | none => (false, s)
    | some calls => runCalls fault (.read :: calls) s

def providers : List Bytes := [ascii "local_directory", ascii "s3_compatible", googleDrive]

/-- Whether every call went through, and the stores as the request leaves them; `fault` is the
call that throws. -/
def State.handle (s : State) (r : Request) (fault : Option Nat) : Bool × State :=
  match r with
  | .create none => (false, s)
  | .create (some location) =>
    if location.provider ∈ providers then runCalls fault [.put location] s else (false, s)
  | .authorize id =>
    match s.location id with
    | none => (false, s)
    | some l =>
      if l.provider = googleDrive ∧ fault ≠ some 0 then
        (true, { s with attempts := Function.update s.attempts id (some l.projectId) })
      else (false, s)
  | .callback id exchanged =>
    let done := s.onLocation (.callback id exchanged) fault
    (done.1, { done.2 with attempts := Function.update s.attempts id none })
  | r => s.onLocation r fault

def State.step (s : State) (l : Request × Option Nat) : Option State := some (s.handle l.1 l.2).2

/-! Deleting -/

/-- No binding and no preference of any project is for this location. -/
def Clear (s : State) (id : Bytes) : Prop :=
  ∀ projectId, s.binding projectId id = none ∧ s.preferred projectId ≠ some id

/-- The location is there, or nothing is left of it. -/
def Reachable (s : State) (id : Bytes) : Prop := s.location id ≠ none ∨ Clear s id

/-- The deletion fails before the location is removed, or nothing that its project has for the
location is left behind, nor is there anything of it in another project. -/
def Released (s : State) (id : Bytes) (fault : Option Nat) : Prop :=
  match s.location id with
  | none => Clear s id
  | some l =>
    fault = some 0 ∨ fault = some 1 ∨
      ((∀ p, p ≠ l.projectId → s.binding p id = none ∧ s.preferred p ≠ some id) ∧
        (s.preferred l.projectId = some id →
          s.secrets = true ∧ fault ≠ some 2 ∧ fault ≠ some 3) ∧
        (s.binding l.projectId id ≠ none →
          s.secrets = true ∧ fault ≠ some 2 ∧ fault ≠ some 3 ∧
            (s.preferred l.projectId = some id → fault ≠ some 4)))

theorem clear_iff {s : State} {id : Bytes} (p : Bytes) :
    Clear s id ↔ (∀ q, q ≠ p → s.binding q id = none ∧ s.preferred q ≠ some id) ∧
      s.preferred p ≠ some id ∧ s.binding p id = none := by
  constructor
  · exact fun h => ⟨fun q _ => h q, (h p).2, (h p).1⟩
  · intro h q
    by_cases hq : q = p
    · subst hq
      exact ⟨h.2.2, h.2.1⟩
    · exact h.1 q hq

theorem handle_delete {s : State} {id : Bytes} {l : Location} (h : s.location id = some l)
    (fault : Option Nat) :
    (s.handle (.delete id) fault).2 =
      ((.read :: .remove id :: releaseCalls s l.projectId id).take
        (fault.getD (releaseCalls s l.projectId id).length.succ.succ)).foldl Call.apply s := by
  have hcalls : s.handle (.delete id) fault =
      runCalls fault (.read :: .remove id :: releaseCalls s l.projectId id) s := by
    simp only [State.handle, State.onLocation, Request.locationId, h, Request.calls]
  rw [hcalls, runCalls, Effects.run_total (fun _ _ => rfl)]
  rfl

/-- What is left of the location's own project decides, once the location is gone. -/
theorem reachable_iff {s t : State} {l : Location} {id : Bytes} (hgone : t.location id = none)
    (hother : ∀ q, q ≠ l.projectId →
      t.binding q id = s.binding q id ∧ t.preferred q = s.preferred q) :
    Reachable t id ↔
      (∀ q, q ≠ l.projectId → s.binding q id = none ∧ s.preferred q ≠ some id) ∧
        t.preferred l.projectId ≠ some id ∧ t.binding l.projectId id = none := by
  rw [Reachable, clear_iff l.projectId]
  simp only [hgone, ne_eq, not_true_eq_false, false_or]
  refine and_congr_left fun _ => forall_congr' fun q => forall_congr' fun hq => ?_
  rw [(hother q hq).1, (hother q hq).2]

/-- A call after the removal. -/
def Call.Releases (p id : Bytes) (c : Call) : Prop :=
  c = .read ∨ c = .clearPreferred p ∨ c = .unbind p id

theorem releaseCalls_release {s : State} {p id : Bytes} :
    ∀ c ∈ releaseCalls s p id, c.Releases p id := by
  intro c hc
  unfold releaseCalls at hc
  split at hc
  · rcases List.mem_cons.mp hc with rfl | hc
    · exact .inl rfl
    · rcases List.mem_append.mp hc with hc | hc
      · split at hc
        · exact .inr (.inl (List.mem_singleton.mp hc))
        · cases hc
      · exact .inr (.inr (List.mem_singleton.mp hc))
  · cases hc

/-- Releasing touches one project's entries only. -/
theorem release_frame (s : State) (p id : Bytes) {calls : List Call}
    (h : ∀ c ∈ calls, c.Releases p id) :
    (calls.foldl Call.apply s).location = s.location ∧
      ∀ q, q ≠ p → (calls.foldl Call.apply s).binding q id = s.binding q id ∧
        (calls.foldl Call.apply s).preferred q = s.preferred q := by
  induction calls generalizing s with
  | nil => exact ⟨rfl, fun q _ => ⟨rfl, rfl⟩⟩
  | cons c calls ih =>
    rw [List.forall_mem_cons] at h
    rw [List.foldl_cons]
    obtain ⟨hlocation, hother⟩ := ih (c.apply s) h.2
    refine ⟨hlocation.trans ?_, fun q hq => ?_⟩
    · rcases h.1 with rfl | rfl | rfl <;> rfl
    · rw [(hother q hq).1, (hother q hq).2]
      rcases h.1 with rfl | rfl | rfl
      · exact ⟨rfl, rfl⟩
      · exact ⟨rfl, Function.update_of_ne hq _ _⟩
      · exact ⟨congrFun (Function.update_of_ne hq _ _) id, rfl⟩

/-- The first `n` calls after the removal. -/
def released (s : State) (l : Location) (id : Bytes) (n : Nat) : State :=
  ((releaseCalls s l.projectId id).take n).foldl Call.apply (Call.apply s (.remove id))

theorem reachable_released_iff {s : State} {l : Location} {id : Bytes} (n : Nat) :
    Reachable (released s l id n) id ↔
      (∀ q, q ≠ l.projectId → s.binding q id = none ∧ s.preferred q ≠ some id) ∧
        (released s l id n).preferred l.projectId ≠ some id ∧
          (released s l id n).binding l.projectId id = none := by
  obtain ⟨hlocation, hother⟩ := release_frame (Call.apply s (.remove id)) l.projectId id
    (fun c hc => releaseCalls_release c (List.mem_of_mem_take hc))
  refine reachable_iff ?_ hother
  rw [released, hlocation]
  exact Function.update_self ..

/-- What the preference and the binding of the location's project are then. -/
theorem released_entries (s : State) (l : Location) (id : Bytes) (n : Nat) :
    ((released s l id n).preferred l.projectId = some id ↔
      s.preferred l.projectId = some id ∧ (s.secrets = false ∨ n < 2)) ∧
    ((released s l id n).binding l.projectId id ≠ none ↔
      s.binding l.projectId id ≠ none ∧
        (s.secrets = false ∨ n < 2 ∨ (s.preferred l.projectId = some id ∧ n = 2))) := by
  unfold released releaseCalls
  cases hsecrets : s.secrets with
  | false => simp [Call.apply]
  | true =>
    by_cases hpreferred : s.preferred l.projectId = some id
    · match n with
      | 0 => simp [Call.apply, hpreferred]
      | 1 => simp [Call.apply, hpreferred]
      | 2 => simp [Call.apply, hpreferred]
      | n + 3 => simp [Call.apply, hpreferred, State.setBinding]
    · match n with
      | 0 => simp [Call.apply, hpreferred]
      | 1 => simp [Call.apply, hpreferred]
      | n + 2 => simp [Call.apply, hpreferred, State.setBinding]

/-- Deleting leaves the location, or nothing of it, exactly under this condition. -/
theorem reachable_delete_iff (s : State) (id : Bytes) (fault : Option Nat) :
    Reachable (s.handle (.delete id) fault).2 id ↔ Released s id fault := by
  unfold Released
  cases hl : s.location id with
  | none =>
    have hsame : s.handle (.delete id) fault = (false, s) := by
      simp only [State.handle, State.onLocation, Request.locationId, hl]
    rw [hsame, Reachable]
    simp [hl]
  | some l =>
    rw [handle_delete hl]
    match fault with
    | some 0 => simp [Reachable, hl]
    | some 1 => simp [Reachable, hl, Call.apply]
    | some (n + 2) =>
      show Reachable (released s l id n) id ↔ _
      rw [reachable_released_iff, ne_eq, (released_entries s l id n).1,
        ← not_ne_iff (a := (released s l id n).binding l.projectId id),
        (released_entries s l id n).2]
      simp only [Option.some.injEq]
      grind
    | none =>
      have hlength : s.secrets = true → 2 ≤ (releaseCalls s l.projectId id).length ∧
          (s.preferred l.projectId = some id → (releaseCalls s l.projectId id).length = 3) := by
        intro hsecrets
        unfold releaseCalls
        rw [if_pos hsecrets]
        split
        · exact ⟨by simp, fun _ => rfl⟩
        · rename_i hpreferred
          exact ⟨by simp, fun h => absurd h hpreferred⟩
      show Reachable (released s l id (releaseCalls s l.projectId id).length) id ↔ _
      rw [reachable_released_iff, ne_eq, (released_entries s l id _).1,
        ← not_ne_iff (a := (released s l id _).binding l.projectId id), (released_entries s l id _).2]
      simp only [reduceCtorEq]
      grind

/-! Sequences of requests -/

/-- Every binding and every preference is for a location that is there. -/
structure Named (s : State) : Prop where
  bound : ∀ projectId id, s.binding projectId id ≠ none → s.location id ≠ none
  preferred : ∀ projectId id, s.preferred projectId = some id → s.location id ≠ none

theorem Named.reachable {s : State} (h : Named s) (id : Bytes) : Reachable s id := by
  by_cases hl : s.location id = none
  · refine .inr fun p => ⟨?_, fun hp => h.preferred p id hp hl⟩
    by_contra hb
    exact h.bound p id hb hl
  · exact .inl hl

theorem named_iff {s : State} : Named s ↔ ∀ id, Reachable s id := by
  refine ⟨Named.reachable, fun h => ⟨fun p id hb => ?_, fun p id hp => ?_⟩⟩
  · exact (h id).resolve_right fun hclear => hb (hclear p).1
  · exact (h id).resolve_right fun hclear => (hclear p).2 hp

theorem binding_setBinding (s : State) (p id : Bytes) (b : Option LocationBinding)
    (q other : Bytes) :
    (s.setBinding p id b).binding q other = if q = p ∧ other = id then b else s.binding q other := by
  unfold State.setBinding
  by_cases hq : q = p
  · subst hq
    by_cases ho : other = id
    · subst ho
      simp
    · simp [ho]
  · simp [hq]

/-- A call that a request other than a deletion makes of this location. -/
def Call.Safe (id : Bytes) : Call → Prop
  | .remove _ => False
  | .setPreferred _ other => other = id
  | .bind _ other _ => other = id
  | _ => True

theorem location_put {s : State} {id : Bytes} (h : s.location id ≠ none) (location : Location) :
    (Call.apply s (.put location)).location id ≠ none := by
  show Function.update s.location location.locationId (some location) id ≠ none
  by_cases heq : id = location.locationId
  · rw [heq, Function.update_self]
    exact Option.some_ne_none _
  · rwa [Function.update_of_ne heq]

theorem Named.put {s : State} (h : Named s) (location : Location) :
    Named (Call.apply s (.put location)) where
  bound p id hb := location_put (h.bound p id hb) location
  preferred p id hp := location_put (h.preferred p id hp) location

theorem Named.apply {s : State} (h : Named s) {id : Bytes} (hid : s.location id ≠ none) {c : Call}
    (hc : c.Safe id) : Named (c.apply s) ∧ (c.apply s).location id ≠ none := by
  cases c with
  | read => exact ⟨h, hid⟩
  | put location => exact ⟨h.put location, location_put hid location⟩
  | remove other => cases hc
  | setPreferred p other =>
    obtain rfl : other = id := hc
    refine ⟨⟨h.bound, fun q other' hq => ?_⟩, hid⟩
    by_cases heq : q = p
    · rw [heq] at hq
      simp only [Call.apply, Function.update_self, Option.some.injEq] at hq
      exact hq ▸ hid
    · simp only [Call.apply, Function.update_of_ne heq] at hq
      exact h.preferred q other' hq
  | clearPreferred p =>
    refine ⟨⟨h.bound, fun q other hq => ?_⟩, hid⟩
    by_cases heq : q = p
    · rw [heq] at hq
      simp only [Call.apply, Function.update_self] at hq
      cases hq
    · simp only [Call.apply, Function.update_of_ne heq] at hq
      exact h.preferred q other hq
  | bind p other binding =>
    obtain rfl : other = id := hc
    refine ⟨⟨fun q other' hb => ?_, h.preferred⟩, hid⟩
    simp only [Call.apply, binding_setBinding] at hb
    split at hb
    · rename_i heq
      rw [heq.2]
      exact hid
    · exact h.bound q other' hb
  | unbind p other =>
    refine ⟨⟨fun q other' hb => ?_, h.preferred⟩, hid⟩
    simp only [Call.apply, binding_setBinding] at hb
    split at hb
    · exact absurd rfl hb
    · exact h.bound q other' hb

theorem Named.calls {s : State} (h : Named s) {id : Bytes} (hid : s.location id ≠ none)
    {calls : List Call} (hsafe : ∀ c ∈ calls, c.Safe id) : Named (calls.foldl Call.apply s) := by
  induction calls generalizing s with
  | nil => exact h
  | cons c calls ih =>
    rw [List.forall_mem_cons] at hsafe
    obtain ⟨hnamed, hthere⟩ := h.apply hid hsafe.1
    exact ih hnamed hthere hsafe.2

theorem calls_safe {s : State} {l : Location} {r : Request} {calls : List Call}
    (hr : ∀ id, r ≠ .delete id) (h : r.calls s l = some calls) :
    ∀ c ∈ calls, c.Safe r.locationId := by
  cases r with
  | create location => cases h
  | authorize id => cases h
  | delete id => exact absurd rfl (hr id)
  | patch id edit =>
    obtain ⟨e, -, rfl⟩ := Option.map_eq_some_iff.mp h
    simp [Call.Safe]
  | bind id body =>
    simp only [Request.calls] at h
    split at h
    · obtain ⟨b, -, rfl⟩ := Option.map_eq_some_iff.mp h
      simp [Call.Safe, Request.locationId]
    · cases h
  | unbind id =>
    simp only [Request.calls] at h
    split at h
    · cases h
      unfold unbindCalls
      split <;> simp [Call.Safe]
    · cases h
  | prefer body =>
    simp only [Request.calls] at h
    split at h
    · obtain ⟨b, rfl, hb⟩ := Option.bind_eq_some_iff.mp h
      split at hb
      · cases hb
        simp [Call.Safe, Request.locationId]
      · cases hb
    · cases h
  | callback id exchanged =>
    simp only [Request.calls] at h
    split at h
    · obtain ⟨projectId, -, h⟩ := Option.bind_eq_some_iff.mp h
      obtain ⟨e, -, rfl⟩ := Option.map_eq_some_iff.mp h
      simp [Call.Safe, Request.locationId]
    · cases h

theorem Named.onLocation {s : State} (h : Named s) {r : Request} (hr : ∀ id, r ≠ .delete id)
    (fault : Option Nat) : Named (s.onLocation r fault).2 := by
  unfold State.onLocation
  split
  · exact h
  · rename_i l hl
    split
    · exact h
    · rename_i calls hcalls
      rw [runCalls, Effects.run_total (fun _ _ => rfl)]
      have hthere : s.location r.locationId ≠ none := by simp [hl]
      refine h.calls hthere fun c hc => ?_
      rcases List.mem_cons.mp (List.mem_of_mem_take hc) with rfl | hmem
      · trivial
      · exact calls_safe hr hcalls c hmem

/-- A deletion takes entries away, and one location. -/
structure Shrinks (id : Bytes) (s t : State) : Prop where
  location : ∀ other, other ≠ id → t.location other = s.location other
  binding : ∀ p other, t.binding p other ≠ none → s.binding p other ≠ none
  preferred : ∀ p other, t.preferred p = some other → s.preferred p = some other

theorem shrinks_apply {s t : State} {id p : Bytes} (h : Shrinks id s t) {c : Call}
    (hc : c = .remove id ∨ c.Releases p id) : Shrinks id s (c.apply t) := by
  rcases hc with rfl | rfl | rfl | rfl
  · exact ⟨fun other hne => (Function.update_of_ne hne _ _).trans (h.location other hne),
      h.binding, h.preferred⟩
  · exact h
  · refine ⟨h.location, h.binding, fun q other hq => h.preferred q other ?_⟩
    by_cases heq : q = p
    · rw [heq] at hq
      simp only [Call.apply, Function.update_self] at hq
      cases hq
    · simpa only [Call.apply, Function.update_of_ne heq] using hq
  · refine ⟨h.location, fun q other hb => h.binding q other ?_, h.preferred⟩
    simp only [Call.apply, binding_setBinding] at hb
    split at hb
    · exact absurd rfl hb
    · exact hb

theorem shrinks_calls {s t : State} {id p : Bytes} (h : Shrinks id s t) {calls : List Call}
    (hc : ∀ c ∈ calls, c = .remove id ∨ c.Releases p id) :
    Shrinks id s (calls.foldl Call.apply t) := by
  induction calls generalizing t with
  | nil => exact h
  | cons c calls ih =>
    rw [List.forall_mem_cons] at hc
    exact ih (shrinks_apply h hc.1) hc.2

theorem Named.delete {s : State} (h : Named s) {id : Bytes} {fault : Option Nat}
    (hok : Released s id fault) : Named (s.handle (.delete id) fault).2 := by
  have hid := (reachable_delete_iff s id fault).mpr hok
  have hshrinks : Shrinks id s (s.handle (.delete id) fault).2 := by
    cases hl : s.location id with
    | none =>
      have hsame : s.handle (.delete id) fault = (false, s) := by
        simp only [State.handle, State.onLocation, Request.locationId, hl]
      rw [hsame]
      exact ⟨fun _ _ => rfl, fun _ _ hb => hb, fun _ _ hp => hp⟩
    | some l =>
      rw [handle_delete hl]
      refine shrinks_calls (p := l.projectId)
        ⟨fun _ _ => rfl, fun _ _ hb => hb, fun _ _ hp => hp⟩ fun c hc => ?_
      rcases List.mem_cons.mp (List.mem_of_mem_take hc) with rfl | hc
      · exact .inr (.inl rfl)
      · rcases List.mem_cons.mp hc with rfl | hc
        · exact .inl rfl
        · exact .inr (releaseCalls_release c hc)
  refine named_iff.mpr fun other => ?_
  by_cases heq : other = id
  · rw [heq]
    exact hid
  · rcases h.reachable other with hthere | hclear
    · exact .inl (by rwa [hshrinks.location other heq])
    · refine .inr fun p => ⟨?_, fun hp => (hclear p).2 (hshrinks.preferred p other hp)⟩
      by_contra hb
      exact hshrinks.binding p other hb (hclear p).1

/-- Deletions leave nothing behind. -/
def Undisturbed (s : State) (l : Request × Option Nat) : Prop :=
  ∀ id, l.1 = .delete id → Released s id l.2

theorem Named.step {s t : State} {l : Request × Option Nat} (h : Named s)
    (hok : Undisturbed s l) (hstep : s.step l = some t) : Named t := by
  obtain ⟨r, fault⟩ := l
  cases hstep
  cases r with
  | delete id => exact h.delete (hok id rfl)
  | create location =>
    cases location with
    | none => exact h
    | some location =>
      simp only [State.handle]
      split
      · rw [runCalls, Effects.run_total (fun _ _ => rfl)]
        match fault with
        | none => exact h.put location
        | some 0 => exact h
        | some (k + 1) =>
          rw [Option.getD_some, List.take_of_length_le (by simp)]
          exact h.put location
      · exact h
  | authorize id =>
    simp only [State.handle]
    split
    · exact h
    · split
      · exact ⟨h.bound, h.preferred⟩
      · exact h
  | callback id exchanged =>
    have hcalled := h.onLocation (r := .callback id exchanged) (fun _ => by simp) fault
    exact ⟨hcalled.bound, hcalled.preferred⟩
  | patch id edit => exact h.onLocation (fun _ => by simp) fault
  | bind id body => exact h.onLocation (fun _ => by simp) fault
  | unbind id => exact h.onLocation (fun _ => by simp) fault
  | prefer body => exact h.onLocation (fun _ => by simp) fault

/-- A deletion leaves the location, or nothing of it, exactly where it is not cut off between the
two stores; and where no deletion is, every binding and every preference is for a location that is
there, in every state. -/
theorem deletions_leave_nothing {start s : State} {requests : List (Request × Option Nat)}
    (hstart : Named start) (hok : Machine.Along State.step Undisturbed start requests)
    (hrun : Machine.run State.step start requests = some s) :
    (∀ (before : State) (id : Bytes) (fault : Option Nat),
        Reachable (before.handle (.delete id) fault).2 id ↔ Released before id fault) ∧
      (∀ projectId id, s.binding projectId id ≠ none → s.location id ≠ none) ∧
        ∀ projectId id, s.preferred projectId = some id → s.location id ≠ none := by
  have h : Named s := Machine.run_invariant_along State.step
    (fun _ _ _ h hl hs => h.step hl hs) hstart hok hrun
  exact ⟨reachable_delete_iff, h.bound, h.preferred⟩

/-! One location -/

def archive : Location where
  locationId := ascii "l1"
  projectId := ascii "p1"
  name := ascii "Archive"
  provider := ascii "s3_compatible"

def keys : List (Bytes × Bytes) := [(ascii "secret_access_key", ascii "k")]

def archiveRequests : List (Request × Option Nat) :=
  [(.create (some archive), none), (.bind (ascii "l1") (some (keys, ascii "Configured")), none),
    (.prefer (some (ascii "p1", ascii "l1")), none)]

def State.isBound (s : State) : Bool := (s.binding (ascii "p1") (ascii "l1")).isSome

def State.isThere (s : State) : Bool := (s.location (ascii "l1")).isSome

/-- The secret store is locked when the location has been removed: its keys and the preference
stay, and neither a second deletion nor the route that removes a binding reaches them. -/
theorem locked_deletion :
    (Machine.run State.step {} (archiveRequests ++ [(.delete (ascii "l1"), some 2),
      (.delete (ascii "l1"), none), (.unbind (ascii "l1"), none)])).any (fun s =>
        !s.isThere && s.isBound && decide (s.preferred (ascii "p1") = some (ascii "l1"))) = true := by
  decide +kernel

theorem named_new : Named {} := ⟨fun _ _ h => absurd rfl h, fun _ _ h => (by cases h)⟩

theorem released_of_early {s : State} {id : Bytes} (h : s.location id ≠ none) :
    Released s id (some 1) := by
  unfold Released
  split
  · rename_i hnone
    exact absurd hnone h
  · exact .inr (.inl rfl)

/-- A deletion that fails before anything has been removed. -/
theorem archive_kept :
    ∃ s, Machine.run State.step {} (archiveRequests ++ [(.delete (ascii "l1"), some 1)]) = some s ∧
      s.binding (ascii "p1") (ascii "l1") ≠ none ∧ s.location (ascii "l1") ≠ none := by
  obtain ⟨s, hrun, htest⟩ := Machine.run_of_any State.step {}
    (archiveRequests ++ [(.delete (ascii "l1"), some 1)]) (fun s => s.isBound) (by decide +kernel)
  have hbound : s.binding (ascii "p1") (ascii "l1") ≠ none :=
    Option.isSome_iff_ne_none.mp htest
  have hthere : ∀ t, Machine.run State.step {} archiveRequests = some t →
      t.location (ascii "l1") ≠ none := by
    intro t ht
    obtain ⟨u, hu, hisThere⟩ := Machine.run_of_any State.step {} archiveRequests
      (fun s => s.isThere) (by decide +kernel)
    rw [hu] at ht
    cases ht
    exact Option.isSome_iff_ne_none.mp hisThere
  have hok : Machine.Along State.step Undisturbed {}
      (archiveRequests ++ [(.delete (ascii "l1"), some 1)]) := by
    refine ⟨fun _ h => (by cases h), fun a ha => ⟨fun _ h => (by cases h), fun b hb =>
      ⟨fun _ h => (by cases h), fun c hc => ⟨fun id h => ?_, fun _ _ => trivial⟩⟩⟩⟩
    cases h
    refine released_of_early (hthere c ?_)
    rw [archiveRequests, Machine.run_cons, ha, Option.bind_some, Machine.run_cons, hb,
      Option.bind_some, Machine.run_cons, hc, Option.bind_some, Machine.run_nil]
  exact ⟨s, hrun, hbound, (deletions_leave_nothing named_new hok hrun).2.1 _ _ hbound⟩

end Locations

end HolderDaemon
