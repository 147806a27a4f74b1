import HolderDaemon.Bytes

/-!
Downloads from S3 (`storage/S3CompatibleProvider.cpp`): `get` makes up to three attempts, each of
which may write what it is answered into the destination file.
-/

set_option autoImplicit false

open Bytes

namespace HolderDaemon

namespace S3Download

inductive StorageErrorCode where
  | invalidConfiguration | authentication | permission | transient | unavailable
  deriving DecidableEq

structure StorageError where
  code : StorageErrorCode
  message : Bytes
  deriving DecidableEq

/-- How an attempt goes: it fails before the destination is opened; it fails while the response is
read, with some of the body in the file; or the whole response is read. -/
inductive Attempt where
  | unreached (what : Bytes)
  | cut (what : Bytes)
  | answered (status : Nat) (body : Bytes)
  deriving DecidableEq

def endpointUnavailable (what : Bytes) : StorageError :=
  ⟨.unavailable, ascii "S3 endpoint unavailable: " ++ what⟩

def requestFailed : StorageError := ⟨.unavailable, ascii "S3 request failed"⟩

def invalidObjectKey : StorageError := ⟨.invalidConfiguration, ascii "invalid S3 object key"⟩

def retried (status : Nat) : Bool := status = 429 || 500 ≤ status

/-- The loop of `request`, with the attempts that are left, and the destination file; the last of
them is not repeated. Opening the file empties it, and a response that breaks off removes it. -/
def request : List Attempt → Option Bytes → Except StorageError Nat × Option Bytes
  | [], file => (.error requestFailed, file)
  | .unreached what :: rest, file =>
    if rest = [] then (.error (endpointUnavailable what), file) else request rest file
  | .cut what :: rest, _ =>
    if rest = [] then (.error (endpointUnavailable what), none) else request rest none
  | .answered status body :: rest, _ =>
    if retried status ∧ rest ≠ [] then request rest (some body) else (.ok status, some body)

def succeeds (status : Nat) : Bool := 200 ≤ status && status < 300

/-- `map_status`. -/
def mapStatus (status : Nat) (operation : Bytes) : Except StorageError Unit :=
  if succeeds status then .ok ()
  else if status = 401 ∨ status = 403 then
    .error ⟨if status = 401 then .authentication else .permission,
      ascii "S3 " ++ operation ++ ascii " was denied"⟩
  else if status = 404 then .error ⟨.unavailable, ascii "S3 object not found"⟩
  else if retried status then
    .error ⟨.transient, ascii "S3 " ++ operation ++ ascii " failed with HTTP " ++ decimal status⟩
  else
    .error ⟨.unavailable, ascii "S3 " ++ operation ++ ascii " failed with HTTP " ++ decimal status⟩

/-- Keys that a request is made for. -/
def validKey (objectKey : Bytes) : Bool := objectKey ≠ [] && objectKey.head? ≠ some 47

/-- `S3CompatibleProvider::get`. -/
def get (objectKey : Bytes) (attempts : List Attempt) (file : Option Bytes) :
    Except StorageError Unit × Option Bytes :=
  if !validKey objectKey then (.error invalidObjectKey, file)
  else
    match request attempts file with
    | (.error e, file) => (.error e, file)
    | (.ok status, file) =>
      (mapStatus status (ascii "GET"), if succeeds status then file else none)

/-! What a download is to leave -/

/-- Attempts after which the loop goes on. -/
def Attempt.goesOn : Attempt → Bool
  | .answered status _ => retried status
  | _ => true

def Attempt.isUnreached : Attempt → Bool
  | .unreached _ => true
  | _ => false

def Attempt.isAnswered : Attempt → Bool
  | .answered _ _ => true
  | _ => false

/-- No file after a failure, and after a success the body of the response that ended the loop. -/
def Clean (attempts : List Attempt) : Except StorageError Unit × Option Bytes → Prop
  | (.error _, file) => file = none
  | (.ok _, file) => ∃ before status body after,
      attempts = before ++ .answered status body :: after ∧
        (∀ a ∈ before, a.goesOn = true) ∧ succeeds status = true ∧ file = some body

/-- The attempts end with some that do not reach the destination, and all before them is to be
repeated; the last one that reached it was answered, or there is a file and none reached it. -/
def LeftBehind (file : Option Bytes) (attempts : List Attempt) : Prop :=
  ∃ before after, attempts = before ++ after ∧ after ≠ [] ∧
    (∀ a ∈ after, a.isUnreached = true) ∧ (∀ a ∈ before, a.goesOn = true) ∧
    match before.getLast? with
    | some last => last.isAnswered = true
    | none => file.isSome = true

theorem mapStatus_isOk (status : Nat) (operation : Bytes) :
    (mapStatus status operation).isOk = succeeds status := by
  unfold mapStatus
  split
  · rename_i hok
    rw [hok]
    rfl
  · rename_i hnot
    rw [Bool.not_eq_true] at hnot
    rw [hnot]
    split
    · rfl
    · split
      · rfl
      · split <;> rfl

/-- The destination after an attempt. -/
def Attempt.leaves (file : Option Bytes) : Attempt → Option Bytes
  | .unreached _ => file
  | .cut _ => none
  | .answered _ body => some body

theorem request_cons {a : Attempt} {rest : List Attempt} (hgo : a.goesOn = true) (hrest : rest ≠ [])
    (file : Option Bytes) : request (a :: rest) file = request rest (a.leaves file) := by
  cases a with
  | unreached what => rw [request, if_neg hrest, Attempt.leaves]
  | cut what => rw [request, if_neg hrest, Attempt.leaves]
  | answered status body => rw [request, if_pos ⟨hgo, hrest⟩, Attempt.leaves]

theorem leftBehind_cons {a : Attempt} {rest : List Attempt} (hrest : rest ≠ [])
    (file : Option Bytes) :
    LeftBehind file (a :: rest) ↔ a.goesOn = true ∧ LeftBehind (a.leaves file) rest := by
  constructor
  · rintro ⟨before, after, heq, hne, hafter, hbefore, hlast⟩
    cases before with
    | nil =>
      rw [List.nil_append] at heq
      rw [← heq, List.forall_mem_cons] at hafter
      cases a with
      | unreached what => exact ⟨rfl, [], rest, rfl, hrest, hafter.2, hbefore, hlast⟩
      | _ => cases hafter.1
    | cons first before =>
      obtain ⟨rfl, rfl⟩ := List.cons.inj heq
      rw [List.forall_mem_cons] at hbefore
      refine ⟨hbefore.1, before, after, rfl, hne, hafter, hbefore.2, ?_⟩
      cases before with
      | nil =>
        cases a with
        | answered status body => rfl
        | _ => cases hlast
      | cons second before => rwa [List.getLast?_cons_cons] at hlast
  · rintro ⟨hgo, before, after, rfl, hne, hafter, hbefore, hlast⟩
    cases before with
    | nil =>
      cases a with
      | unreached what =>
        exact ⟨[], _, rfl, List.cons_ne_nil _ _, List.forall_mem_cons.mpr ⟨rfl, hafter⟩, hbefore,
          hlast⟩
      | cut what => cases hlast
      | answered status body =>
        exact ⟨[.answered status body], after, rfl, hne, hafter,
          List.forall_mem_cons.mpr ⟨hgo, hbefore⟩, rfl⟩
    | cons second before =>
      refine ⟨a :: second :: before, after, rfl, hne, hafter,
        List.forall_mem_cons.mpr ⟨hgo, hbefore⟩, ?_⟩
      rwa [List.getLast?_cons_cons]

theorem leftBehind_singleton (a : Attempt) (file : Option Bytes) :
    LeftBehind file [a] ↔ a.isUnreached = true ∧ file.isSome = true := by
  constructor
  · rintro ⟨before, after, heq, hne, hafter, -, hlast⟩
    cases before with
    | nil =>
      rw [List.nil_append] at heq
      subst heq
      exact ⟨hafter a (.head _), hlast⟩
    | cons first before =>
      obtain ⟨-, hnil⟩ := List.cons.inj heq
      exact absurd (List.append_eq_nil_iff.mp hnil.symm).2 hne
  · rintro ⟨ha, hfile⟩
    exact ⟨[], [a], rfl, List.cons_ne_nil _ _, by simpa using ha, by simp, hfile⟩

/-- Where the loop throws, a file is left exactly in the case described. -/
theorem request_error_iff {attempts : List Attempt} (h : attempts ≠ []) (file : Option Bytes) :
    (∃ e body, request attempts file = (.error e, some body)) ↔ LeftBehind file attempts := by
  induction attempts generalizing file with
  | nil => exact absurd rfl h
  | cons a rest ih =>
    by_cases hrest : rest = []
    · subst hrest
      rw [leftBehind_singleton]
      cases a with
      | unreached what =>
        rw [request, if_pos rfl, Option.isSome_iff_exists]
        simp [Attempt.isUnreached]
      | cut what =>
        rw [request, if_pos rfl]
        simp [Attempt.isUnreached]
      | answered status body =>
        rw [request, if_neg (by simp)]
        simp [Attempt.isUnreached]
    · rw [leftBehind_cons hrest]
      by_cases hgo : a.goesOn = true
      · rw [request_cons hgo hrest, ih hrest]
        exact (and_iff_right hgo).symm
      · refine iff_of_false ?_ fun hboth => hgo hboth.1
        cases a with
        | answered status body =>
          rw [request, if_neg fun hboth => hgo hboth.1]
          simp
        | _ => exact absurd rfl hgo

/-- Where the loop returns, the destination holds the body of the response that ended it. -/
theorem request_ok {attempts : List Attempt} {file left : Option Bytes} {status : Nat}
    (h : request attempts file = (.ok status, left)) :
    ∃ before body after, attempts = before ++ .answered status body :: after ∧
      (∀ a ∈ before, a.goesOn = true) ∧ left = some body := by
  induction attempts generalizing file with
  | nil => cases h
  | cons a rest ih =>
    by_cases hgo : a.goesOn = true ∧ rest ≠ []
    · rw [request_cons hgo.1 hgo.2] at h
      obtain ⟨before, body, after, hrest, hbefore, hleft⟩ := ih h
      exact ⟨a :: before, body, after, by rw [hrest, List.cons_append],
        List.forall_mem_cons.mpr ⟨hgo.1, hbefore⟩, hleft⟩
    · cases a with
      | answered last body =>
        rw [Attempt.goesOn] at hgo
        rw [request, if_neg hgo] at h
        cases h
        exact ⟨[], body, rest, rfl, by simp, rfl⟩
      | unreached what =>
        rw [request, if_pos (not_not.mp fun hrest => hgo ⟨rfl, hrest⟩)] at h
        cases h
      | cut what =>
        rw [request, if_pos (not_not.mp fun hrest => hgo ⟨rfl, hrest⟩)] at h
        cases h

/-- A download leaves no wrong file exactly where the key is valid and no file is left behind, or
the key is not and there was no file. -/
theorem download_clean_iff (objectKey : Bytes) (first second third : Attempt)
    (file : Option Bytes) :
    Clean [first, second, third] (get objectKey [first, second, third] file) ↔
      if validKey objectKey then ¬ LeftBehind file [first, second, third] else file = none := by
  have herror := request_error_iff (List.cons_ne_nil first [second, third]) file
  generalize [first, second, third] = attempts at herror ⊢
  rw [get]
  cases hkey : validKey objectKey with
  | false => exact Iff.rfl
  | true =>
    rw [Bool.not_true, if_neg Bool.false_ne_true, if_pos rfl, ← herror]
    split
    · rename_i e left hrequest
      rw [hrequest]
      cases left with
      | none => simp [Clean]
      | some body => simp [Clean]
    · rename_i status left hrequest
      rw [hrequest]
      refine iff_of_true ?_ (by simp)
      obtain ⟨before, body, after, hattempts, hbefore, hleft⟩ := request_ok hrequest
      have hok := mapStatus_isOk status (ascii "GET")
      cases hsucceeds : succeeds status with
      | true =>
        rw [hsucceeds] at hok
        cases hmap : mapStatus status (ascii "GET") with
        | error e =>
          rw [hmap] at hok
          cases hok
        | ok =>
          rw [if_pos rfl, hleft]
          exact ⟨before, status, body, after, hattempts, hbefore, hsucceeds, rfl⟩
      | false =>
        rw [hsucceeds] at hok
        cases hmap : mapStatus status (ascii "GET") with
        | error e =>
          rw [if_neg Bool.false_ne_true]
          rfl
        | ok =>
          rw [hmap] at hok
          cases hok

/-- An answer that is to be repeated, and then no connection: the body of the answer stays. -/
theorem download_leaves_error_body :
    ∃ e, get (ascii "k") [.answered 503 (ascii "<Error/>"), .unreached [], .unreached []] none =
      (.error e, some (ascii "<Error/>")) :=
  ⟨_, rfl⟩

end S3Download

end HolderDaemon
