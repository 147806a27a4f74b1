import HolderDaemon.Assoc
import HolderDaemon.Bytes
import HolderDaemon.Machine

/-!
The Google Drive connection (`api/routes/GoogleDriveOAuthRoutes.cpp`): the attempts that the
authorize requests leave for the callbacks. The requests are served by several workers, so the
map is as of its lock, and a callback goes on after it has taken its attempt from it.
-/

set_option autoImplicit false

open Bytes

namespace HolderDaemon

namespace GoogleDriveOAuth

/-! Requests -/

/-- What follows the first occurrence of `needle`. -/
def afterFirst (needle : Bytes) : Bytes → Option Bytes
  | [] => if needle = [] then some [] else none
  | b :: s =>
    if needle.isPrefixOf (b :: s) then some ((b :: s).drop needle.length) else afterFirst needle s

def queryParamValue (queryString key : Bytes) : Bytes :=
  match afterFirst (key ++ ascii "=") queryString with
  | some rest => rest.takeWhile fun b => b ≠ 38
  | none => []

/-- The value of a hexadecimal digit, where `std::isxdigit` holds. -/
def hexValue (b : UInt8) : Option UInt8 :=
  if 48 ≤ b ∧ b ≤ 57 then some (b - 48)
  else if 65 ≤ b ∧ b ≤ 70 then some (b - 55)
  else if 97 ≤ b ∧ b ≤ 102 then some (b - 87)
  else none

def percentDecode : Bytes → Bytes
  | [] => []
  | 37 :: high :: low :: rest =>
    match hexValue high, hexValue low with
    | some h, some l => (16 * h + l) :: percentDecode rest
    | _, _ => 37 :: percentDecode (high :: low :: rest)
  | b :: rest => (if b = 43 then 32 else b) :: percentDecode rest

def parseCallbackLocationId (path : Bytes) : Option Bytes :=
  let start := ascii "/locations/"
  let ending := ascii "/oauth/google-drive/callback"
  if start.isPrefixOf path = false then none
  else if path.length ≤ start.length + ending.length then none
  else if ending.isSuffixOf path = false then none
  else some ((path.drop start.length).take (path.length - start.length - ending.length))

def oauthRedirectUri (host : Option Bytes) (locationId : Bytes) : Bytes :=
  ascii "http://" ++ host.getD (ascii "127.0.0.1") ++ ascii "/locations/" ++ locationId ++
    ascii "/oauth/google-drive/callback"

structure GoogleOAuthClient where
  clientId : Bytes
  clientSecret : Bytes
  deriving DecidableEq

def notConfigured : Bytes :=
  ascii "Google Drive is not configured on this daemon (HOLDER_GOOGLE_OAUTH_CLIENT_ID/" ++
    ascii "HOLDER_GOOGLE_OAUTH_CLIENT_SECRET are not set)"

/-- The fields of a location that are read here. -/
structure Location where
  provider : Bytes
  projectId : Bytes
  deriving DecidableEq

structure PendingOAuthAttempt where
  codeVerifier : Bytes
  state : Bytes
  projectId : Bytes
  createdAt : Int
  deriving DecidableEq

/-- An authorize request, with what it reads: the location's row, the client from the environment,
what is generated for it, and the clock. -/
structure AuthorizeRequest where
  locationId : Bytes
  host : Option Bytes := none
  location : Option Location
  client : Option GoogleOAuthClient
  codeVerifier : Bytes
  codeChallenge : Bytes
  state : Bytes
  now : Int

/-- The arguments of `build_authorization_url`. -/
structure AuthorizationUrl where
  client : GoogleOAuthClient
  redirectUri : Bytes
  scope : Bytes := ascii "https://www.googleapis.com/auth/drive.file"
  codeChallenge : Bytes
  state : Bytes

/-- The attempt that the handler stores and the URL that it answers, or the text of its error. -/
def AuthorizeRequest.serve (a : AuthorizeRequest) :
    Except Bytes (PendingOAuthAttempt × AuthorizationUrl) :=
  match a.location with
  | none => .error (ascii "location not found")
  | some location =>
    if location.provider ≠ ascii "google-drive" then
      .error (ascii "location is not a google-drive location")
    else
      match a.client with
      | none => .error notConfigured
      | some client =>
        .ok (⟨a.codeVerifier, a.state, location.projectId, a.now⟩,
          { client, redirectUri := oauthRedirectUri a.host a.locationId,
            codeChallenge := a.codeChallenge, state := a.state })

structure CallbackRequest where
  path : Bytes
  queryString : Bytes
  isGet : Bool := true
  host : Option Bytes := none

def CallbackRequest.param (c : CallbackRequest) (key : String) : Bytes :=
  percentDecode (queryParamValue c.queryString (ascii key))

/-- The location whose callback the request is; other requests fall through. -/
def CallbackRequest.locationId (c : CallbackRequest) : Option Bytes :=
  if c.isGet then parseCallbackLocationId c.path else none

structure Page where
  status : Nat
  title : Bytes
  message : Bytes
  deriving DecidableEq

def invalidPage : Page :=
  ⟨400, ascii "Connection expired",
    ascii "This Google Drive connection attempt is no longer valid. Return to Holder and " ++
      ascii "try connecting again."⟩

def expiredPage : Page :=
  ⟨400, ascii "Connection expired",
    ascii "This Google Drive connection attempt took too long. Return to Holder and try " ++
      ascii "connecting again."⟩

def unverifiedPage : Page :=
  ⟨400, ascii "Connection failed",
    ascii "This request could not be verified. Return to Holder and try connecting again."⟩

def cancelledPage : Page :=
  ⟨200, ascii "Connection cancelled",
    ascii "Google Drive was not connected. You can close this window and return to Holder."⟩

def noCodePage : Page :=
  ⟨400, ascii "Connection failed",
    ascii "Google did not return an authorization code. Return to Holder and try " ++
      ascii "connecting again."⟩

def failedPage (what : Bytes) : Page :=
  ⟨500, ascii "Connection failed",
    ascii "Something went wrong: " ++ what ++
      ascii ". Return to Holder and try connecting again."⟩

def pendingOAuthTtlSeconds : Int := 600

/-- The arguments of `exchange_authorization_code`. -/
structure ExchangeCall where
  client : GoogleOAuthClient
  redirectUri : Bytes
  code : Bytes
  codeVerifier : Bytes
  deriving DecidableEq

/-- What the callback does with the attempt it has taken: a page, or an exchange. -/
def CallbackRequest.check (c : CallbackRequest) (locationId : Bytes)
    (attempt : PendingOAuthAttempt) (now : Int) (secretStore : Bool)
    (client : Option GoogleOAuthClient) : Except Page ExchangeCall :=
  if now - attempt.createdAt > pendingOAuthTtlSeconds then .error expiredPage
  else if c.param "state" = [] ∨ c.param "state" ≠ attempt.state then .error unverifiedPage
  else if c.param "error" ≠ [] then .error cancelledPage
  else if c.param "code" = [] then .error noCodePage
  else if secretStore = false then .error (failedPage (ascii "secret store unavailable"))
  else
    match client with
    | none => .error (failedPage notConfigured)
    | some client =>
      .ok ⟨client, oauthRedirectUri c.host locationId, c.param "code", attempt.codeVerifier⟩

theorem CallbackRequest.check_ok {c : CallbackRequest} {locationId : Bytes}
    {attempt : PendingOAuthAttempt} {now : Int} {secretStore : Bool}
    {client : Option GoogleOAuthClient} {call : ExchangeCall}
    (h : c.check locationId attempt now secretStore client = .ok call) :
    now - attempt.createdAt ≤ 600 ∧ c.param "state" ≠ [] ∧
      c.param "state" = attempt.state ∧ call.codeVerifier = attempt.codeVerifier := by
  unfold CallbackRequest.check at h
  split at h
  next => cases h
  next hage =>
    split at h
    next => cases h
    next hstate =>
      obtain ⟨hsome, hsame⟩ := not_or.mp hstate
      repeat' split at h
      all_goals cases h
      exact ⟨not_lt.mp hage, hsome, not_not.mp hsame, rfl⟩

/-! Runs -/

/-- An authorize request that has stored its attempt. -/
structure Authorized where
  locationId : Bytes
  attempt : PendingOAuthAttempt
  deriving DecidableEq

/-- An entry of `pending_oauth_attempts`, with the number of the request that it is of. -/
structure Pending where
  attempt : PendingOAuthAttempt
  request : Nat
  deriving DecidableEq

inductive Stage where
  | taken
  | answered (page : Page)
  | checked (now : Int) (call : ExchangeCall)
  | exchanged (now : Int) (call : ExchangeCall)
  deriving DecidableEq

/-- A callback that has taken an attempt, and how many authorize requests had been served then. -/
structure Callback where
  locationId : Bytes
  request : CallbackRequest
  pending : Pending
  seen : Nat
  stage : Stage

structure Exchange where
  callback : Nat
  call : ExchangeCall

structure Attempts where
  pending : List (Bytes × Pending) := []
  authorized : List Authorized := []
  callbacks : List Callback := []
  exchanges : List Exchange := []

inductive OAuthStep where
  | authorize (request : AuthorizeRequest)
  /-- A callback request up to the end of its lock. -/
  | take (request : CallbackRequest)
  | check (i : Nat) (now : Int) (secretStore : Bool) (client : Option GoogleOAuthClient)
  | exchange (i : Nat)

namespace Attempts

def authorize (s : Attempts) (a : AuthorizeRequest) : Attempts :=
  match a.serve with
  | .error _ => s
  | .ok (attempt, _) =>
    { s with
      pending := Assoc.set a.locationId ⟨attempt, s.authorized.length⟩ s.pending
      authorized := s.authorized ++ [⟨a.locationId, attempt⟩] }

def take (s : Attempts) (c : CallbackRequest) : Attempts :=
  match c.locationId with
  | none => s
  | some locationId =>
    match s.pending.lookup locationId with
    | none => s
    | some pending =>
      { s with
        pending := Assoc.erase locationId s.pending
        callbacks := s.callbacks ++ [⟨locationId, c, pending, s.authorized.length, .taken⟩] }

def put (s : Attempts) (i : Nat) (c : Callback) (stage : Stage) : Attempts :=
  { s with callbacks := s.callbacks.set i { c with stage } }

def step (s : Attempts) : OAuthStep → Option Attempts
  | .authorize a => some (s.authorize a)
  | .take c => some (s.take c)
  | .check i now secretStore client =>
    match s.callbacks[i]? with
    | some c =>
      if c.stage = .taken then
        match c.request.check c.locationId c.pending.attempt now secretStore client with
        | .error page => some (s.put i c (.answered page))
        | .ok call => some (s.put i c (.checked now call))
      else none
    | none => none
  | .exchange i =>
    match s.callbacks[i]? with
    | some c =>
      match c.stage with
      | .checked now call =>
        some { s.put i c (.exchanged now call) with exchanges := s.exchanges ++ [⟨i, call⟩] }
      | .taken | .answered _ | .exchanged _ _ => none
    | none => none

end Attempts

/-- The entry is of the last request for the location among the first `seen`. -/
structure Latest (authorized : List Authorized) (seen : Nat) (locationId : Bytes)
    (pending : Pending) : Prop where
  stored : authorized[pending.request]? = some ⟨locationId, pending.attempt⟩
  before : pending.request < seen
  last : ∀ m r, pending.request < m → m < seen → authorized[m]? = some r →
    r.locationId ≠ locationId

/-- What a check that has passed has seen. -/
structure Passed (c : Callback) (now : Int) (call : ExchangeCall) : Prop where
  inTime : now - c.pending.attempt.createdAt ≤ 600
  named : c.request.param "state" ≠ []
  sameState : c.request.param "state" = c.pending.attempt.state
  sameVerifier : call.codeVerifier = c.pending.attempt.codeVerifier

structure Callback.Sound (authorized : List Authorized) (c : Callback) : Prop where
  latest : Latest authorized c.seen c.locationId c.pending
  served : c.seen ≤ authorized.length
  passed : ∀ now call, c.stage = .checked now call ∨ c.stage = .exchanged now call →
    Passed c now call

/-- An attempt is in the map or taken by one callback, and each exchange is that of one callback. -/
structure Attempts.Sound (s : Attempts) : Prop where
  pending : ∀ locationId p, s.pending.lookup locationId = some p →
    Latest s.authorized s.authorized.length locationId p
  untaken : ∀ locationId p, s.pending.lookup locationId = some p →
    p.request ∉ s.callbacks.map fun c => c.pending.request
  callbacks : ∀ c ∈ s.callbacks, c.Sound s.authorized
  once : (s.callbacks.map fun c => c.pending.request).Nodup
  exchanges : ∀ e ∈ s.exchanges, ∃ c now, s.callbacks[e.callback]? = some c ∧
    c.stage = .exchanged now e.call
  exchangedOnce : (s.exchanges.map Exchange.callback).Nodup

/-- Later requests leave what was the latest. -/
theorem Latest.append {authorized : List Authorized} {seen : Nat} {locationId : Bytes}
    {pending : Pending} (h : Latest authorized seen locationId pending)
    (hseen : seen ≤ authorized.length) (r : Authorized) :
    Latest (authorized ++ [r]) seen locationId pending := by
  have hbefore := h.before
  refine ⟨?_, h.before, fun m q hm hms hq => ?_⟩
  · rw [List.getElem?_append_left (by omega)]
    exact h.stored
  · rw [List.getElem?_append_left (by omega)] at hq
    exact h.last m q hm hms hq

/-- A request for another location leaves it the latest. -/
theorem Latest.append_other {authorized : List Authorized} {locationId : Bytes}
    {pending : Pending} (h : Latest authorized authorized.length locationId pending)
    {r : Authorized} (hr : r.locationId ≠ locationId) :
    Latest (authorized ++ [r]) (authorized ++ [r]).length locationId pending := by
  have hbefore := h.before
  have hold := h.append le_rfl r
  refine ⟨hold.stored, by rw [List.length_append]; omega, fun m q hm hms hq => ?_⟩
  rcases lt_or_ge m authorized.length with hlt | hge
  · exact hold.last m q hm hlt hq
  · obtain rfl : m = authorized.length := by
      rw [List.length_append, List.length_singleton] at hms
      omega
    rw [List.getElem?_concat_length, Option.some.injEq] at hq
    exact hq ▸ hr

theorem Callback.Sound.append {authorized : List Authorized} {c : Callback}
    (h : c.Sound authorized) (r : Authorized) : c.Sound (authorized ++ [r]) :=
  ⟨h.latest.append h.served r, by rw [List.length_append]; exact Nat.le_add_right_of_le h.served,
    h.passed⟩

section Keeps
variable {s t : Attempts}

theorem Attempts.Sound.authorize (h : s.Sound) (a : AuthorizeRequest) : (s.authorize a).Sound := by
  unfold Attempts.authorize
  split
  next => exact h
  next attempt url hserve =>
    refine ⟨fun locationId p hp => ?_, fun locationId p hp => ?_,
      fun c hc => (h.callbacks c hc).append _, h.once, h.exchanges, h.exchangedOnce⟩
    · by_cases hloc : locationId = a.locationId
      · subst hloc
        rw [Assoc.lookup_set_self, Option.some.injEq] at hp
        subst hp
        refine ⟨List.getElem?_concat_length, by rw [List.length_append]; simp, ?_⟩
        intro m r hm hms _
        simp only [List.length_append, List.length_singleton] at hm hms
        omega
      · rw [Assoc.lookup_set_ne (Ne.symm hloc)] at hp
        exact (h.pending locationId p hp).append_other (Ne.symm hloc)
    · by_cases hloc : locationId = a.locationId
      · subst hloc
        rw [Assoc.lookup_set_self, Option.some.injEq] at hp
        subst hp
        rintro hmem
        obtain ⟨c, hc, hrequest⟩ := List.mem_map.mp hmem
        have hsound := h.callbacks c hc
        have hbefore := hsound.latest.before
        have hserved := hsound.served
        simp only at hrequest
        omega
      · rw [Assoc.lookup_set_ne (Ne.symm hloc)] at hp
        exact h.untaken locationId p hp

/-- Two entries of the map are of different requests. -/
theorem Attempts.Sound.request_ne (h : s.Sound) {k l : Bytes} {p q : Pending}
    (hp : s.pending.lookup k = some p) (hq : s.pending.lookup l = some q) (hkl : k ≠ l) :
    p.request ≠ q.request := by
  intro hsame
  have hk := (h.pending k p hp).stored
  have hl := (h.pending l q hq).stored
  rw [hsame, hl, Option.some.injEq, Authorized.mk.injEq] at hk
  exact hkl hk.1.symm

theorem Attempts.Sound.take (h : s.Sound) (c : CallbackRequest) : (s.take c).Sound := by
  unfold Attempts.take
  split
  next => exact h
  next locationId hloc =>
    split
    next => exact h
    next pending hp =>
      have hother : ∀ k p, (Assoc.erase locationId s.pending).lookup k = some p →
          k ≠ locationId ∧ s.pending.lookup k = some p := by
        intro k p hk
        have hne : k ≠ locationId := by
          rintro rfl
          rw [Assoc.lookup_erase_self] at hk
          cases hk
        rw [Assoc.lookup_erase_ne hne.symm] at hk
        exact ⟨hne, hk⟩
      refine ⟨fun k p hk => h.pending k p (hother k p hk).2, fun k p hk => ?_, fun d hd => ?_, ?_,
        fun e he => ?_, h.exchangedOnce⟩
      · obtain ⟨hne, hk⟩ := hother k p hk
        rw [List.map_append, List.mem_append, not_or]
        refine ⟨h.untaken k p hk, ?_⟩
        rw [List.map_singleton, List.mem_singleton]
        exact h.request_ne hk hp hne
      · rcases List.mem_append.mp hd with hd | hd
        · exact h.callbacks d hd
        · obtain rfl := List.mem_singleton.mp hd
          exact ⟨h.pending locationId pending hp, le_rfl, by rintro _ _ (h | h) <;> cases h⟩
      · rw [List.map_append, List.map_singleton]
        exact List.nodup_append.mpr ⟨h.once, List.nodup_singleton _, fun n hn m hm => by
          rw [List.mem_singleton] at hm
          rintro rfl
          exact h.untaken locationId pending hp (hm ▸ hn)⟩
      · obtain ⟨d, now, hd, hstage⟩ := h.exchanges e he
        have hlt := (List.getElem?_eq_some_iff.mp hd).1
        exact ⟨d, now, by rw [List.getElem?_append_left hlt]; exact hd, hstage⟩

/-- A callback goes on to another stage. -/
theorem Attempts.Sound.put (h : s.Sound) {i : Nat} {c : Callback} (hc : s.callbacks[i]? = some c)
    {stage : Stage} (hold : ∀ now call, c.stage ≠ .exchanged now call)
    (hpassed : ∀ now call, stage = .checked now call ∨ stage = .exchanged now call →
      Passed c now call) :
    (s.put i c stage).Sound := by
  have hrequests : (s.put i c stage).callbacks.map (fun c => c.pending.request) =
      s.callbacks.map fun c => c.pending.request := by
    refine List.ext_getElem? fun j => ?_
    rw [List.getElem?_map, List.getElem?_map, Attempts.put, List.getElem?_set]
    rcases eq_or_ne i j with rfl | hij
    · obtain ⟨hlt, hget⟩ := List.getElem?_eq_some_iff.mp hc
      simp [hlt, hget]
    · rw [if_neg hij]
  refine ⟨h.pending, fun k p hk => ?_, fun d hd => ?_, ?_, fun e he => ?_, h.exchangedOnce⟩
  · rw [hrequests]
    exact h.untaken k p hk
  · rcases List.mem_or_eq_of_mem_set hd with hd | rfl
    · exact h.callbacks d hd
    · have hsound := h.callbacks c (List.mem_of_getElem? hc)
      exact ⟨hsound.latest, hsound.served, fun now call hstage =>
        ⟨(hpassed now call hstage).inTime, (hpassed now call hstage).named,
          (hpassed now call hstage).sameState, (hpassed now call hstage).sameVerifier⟩⟩
  · rw [hrequests]
    exact h.once
  · obtain ⟨d, now, hd, hstage⟩ := h.exchanges e he
    refine ⟨d, now, ?_, hstage⟩
    rw [Attempts.put, List.getElem?_set_ne]
    · exact hd
    · rintro rfl
      rw [hc, Option.some.injEq] at hd
      exact hold now e.call (hd ▸ hstage)

theorem Attempts.Sound.exchange (h : s.Sound) {i : Nat} {c : Callback} {now : Int}
    {call : ExchangeCall} (hc : s.callbacks[i]? = some c) (hstage : c.stage = .checked now call) :
    Attempts.Sound { s.put i c (.exchanged now call) with
      exchanges := s.exchanges ++ [⟨i, call⟩] } := by
  have hpassed := (h.callbacks c (List.mem_of_getElem? hc)).passed now call (.inl hstage)
  have hput : (s.put i c (.exchanged now call)).Sound := by
    refine h.put hc (fun n d hd => by rw [hstage] at hd; cases hd) fun n d hd => ?_
    rcases hd with hd | hd <;> cases hd
    exact hpassed
  -- the callbacks that have exchanged are at another stage than this one
  have hnew : i ∉ s.exchanges.map Exchange.callback := by
    intro hmem
    obtain ⟨e, he, rfl⟩ := List.mem_map.mp hmem
    obtain ⟨d, n, hd, hdone⟩ := h.exchanges e he
    rw [hc, Option.some.injEq] at hd
    rw [← hd, hstage] at hdone
    cases hdone
  refine ⟨hput.pending, hput.untaken, hput.callbacks, hput.once, fun e he => ?_, ?_⟩
  · rcases List.mem_append.mp he with he | he
    · exact hput.exchanges e he
    · obtain rfl := List.mem_singleton.mp he
      refine ⟨{ c with stage := .exchanged now call }, now, ?_, rfl⟩
      exact List.getElem?_set_self (List.getElem?_eq_some_iff.mp hc).1
  · rw [List.map_append, List.map_singleton]
    exact List.nodup_append.mpr ⟨h.exchangedOnce, List.nodup_singleton _, fun n hn m hm => by
      rw [List.mem_singleton] at hm
      rintro rfl
      exact hnew ((show n = i from hm) ▸ hn)⟩

theorem Attempts.Sound.step {l : OAuthStep} (h : s.Sound) (hstep : s.step l = some t) :
    t.Sound := by
  cases l with
  | authorize a =>
    cases hstep
    exact h.authorize a
  | take c =>
    cases hstep
    exact h.take c
  | check i now secretStore client =>
    simp only [Attempts.step] at hstep
    split at hstep
    next c hc =>
      split at hstep
      next htaken =>
        have hold : ∀ n d, c.stage ≠ .exchanged n d := by
          intro n d hd
          rw [htaken] at hd
          cases hd
        split at hstep
        next page hpage =>
          cases hstep
          exact h.put hc hold fun n d hd => by rcases hd with hd | hd <;> cases hd
        next call hcall =>
          cases hstep
          refine h.put hc hold fun n d hd => ?_
          rcases hd with hd | hd <;> cases hd
          obtain ⟨hage, hnamed, hsame, hverifier⟩ := CallbackRequest.check_ok hcall
          exact ⟨hage, hnamed, hsame, hverifier⟩
      next => cases hstep
    next => cases hstep
  | exchange i =>
    simp only [Attempts.step] at hstep
    split at hstep
    next c hc =>
      split at hstep
      next now call hstage =>
        cases hstep
        exact h.exchange hc hstage
      all_goals cases hstep
    next => cases hstep

end Keeps

/-- In every order of the steps of any requests, an attempt is taken by one callback at most, which
exchanges once at most: with the state of the request that was the latest for the location when the
attempt was taken, and with a clock within its 600 seconds. -/
theorem exchange_of_taken_attempt {steps : List OAuthStep} {s : Attempts}
    (hrun : Machine.run Attempts.step {} steps = some s) :
    (s.callbacks.map fun c => c.pending.request).Nodup ∧
      (s.exchanges.map Exchange.callback).Nodup ∧
      ∀ e ∈ s.exchanges, ∃ c now r, s.callbacks[e.callback]? = some c ∧
        c.stage = .exchanged now e.call ∧
        s.authorized[c.pending.request]? = some r ∧ r.locationId = c.locationId ∧
        c.pending.request < c.seen ∧
        (∀ m q, c.pending.request < m → m < c.seen → s.authorized[m]? = some q →
          q.locationId ≠ c.locationId) ∧
        c.request.param "state" ≠ [] ∧ c.request.param "state" = r.attempt.state ∧
        now - r.attempt.createdAt ≤ 600 ∧ e.call.codeVerifier = r.attempt.codeVerifier := by
  have hstart : Attempts.Sound {} :=
    ⟨nofun, nofun, nofun, List.nodup_nil, nofun, List.nodup_nil⟩
  have hsound : s.Sound := Machine.run_invariant Attempts.step
    (fun s l t hs hstep => hs.step hstep) hstart hrun
  refine ⟨hsound.once, hsound.exchangedOnce, fun e he => ?_⟩
  obtain ⟨c, now, hc, hstage⟩ := hsound.exchanges e he
  have hcallback := hsound.callbacks c (List.mem_of_getElem? hc)
  have hlatest := hcallback.latest
  have hpassed := hcallback.passed now e.call (.inr hstage)
  exact ⟨c, now, _, hc, hstage, hlatest.stored, rfl, hlatest.before, hlatest.last,
    hpassed.named, hpassed.sameState, hpassed.inTime, hpassed.sameVerifier⟩

def authorizeDrive (state : String) (now : Int) : OAuthStep :=
  .authorize
    { locationId := ascii "drive", location := some ⟨ascii "google-drive", ascii "notes"⟩,
      client := some ⟨ascii "holder", ascii "secret"⟩, codeVerifier := ascii "verifier",
      codeChallenge := ascii "challenge", state := ascii state, now }

def callbackDrive (queryString : String) : OAuthStep :=
  .take ⟨ascii "/locations/drive/oauth/google-drive/callback", ascii queryString, true, none⟩

def checkDrive (now : Int) : OAuthStep :=
  .check 0 now true (some ⟨ascii "holder", ascii "secret"⟩)

theorem exchange_of_taken_attempt_drive :
    ∃ s, Machine.run Attempts.step {} [authorizeDrive "first" 100,
        callbackDrive "state=f%69rst&code=4", checkDrive 700, .exchange 0] = some s ∧
      s.exchanges.length = 1 ∧ (s.callbacks.map fun c => c.pending.request).Nodup := by
  obtain ⟨s, hrun, htest⟩ := Machine.run_of_any Attempts.step {} [authorizeDrive "first" 100,
    callbackDrive "state=f%69rst&code=4", checkDrive 700, .exchange 0]
    (fun s : Attempts => decide (s.exchanges.length = 1)) (by decide +kernel)
  exact ⟨s, hrun, of_decide_eq_true htest, (exchange_of_taken_attempt hrun).1⟩

/-- A request that comes after the take does not stop the exchange. -/
theorem replaced_attempt_exchanged :
    ∃ s t, Machine.run Attempts.step {} [authorizeDrive "first" 100,
        callbackDrive "state=first&code=4", authorizeDrive "second" 101,
        checkDrive 102] = some s ∧
      s.exchanges.length = 0 ∧ s.step (.exchange 0) = some t ∧ t.exchanges.length = 1 ∧
      (t.callbacks.map fun c => c.request.param "state") = [ascii "first"] ∧
      (t.authorized.map fun r => (r.locationId, r.attempt.state)) =
        [(ascii "drive", ascii "first"), (ascii "drive", ascii "second")] := by
  obtain ⟨s, hrun, htest⟩ := Machine.run_of_any Attempts.step {} [authorizeDrive "first" 100,
    callbackDrive "state=first&code=4", authorizeDrive "second" 101, checkDrive 102]
    (fun s : Attempts => decide (s.exchanges.length = 0) &&
      (s.step (.exchange 0)).any fun t : Attempts =>
        decide (t.exchanges.length = 1 ∧
          (t.callbacks.map fun c => c.request.param "state") = [ascii "first"] ∧
          (t.authorized.map fun r => (r.locationId, r.attempt.state)) =
            [(ascii "drive", ascii "first"), (ascii "drive", ascii "second")]))
    (by decide +kernel)
  obtain ⟨hnone, hstep⟩ := Bool.and_eq_true_iff.mp htest
  obtain ⟨t, ht, hend⟩ := (Option.any_eq_true _ _).mp hstep
  exact ⟨s, t, hrun, of_decide_eq_true hnone, ht, of_decide_eq_true hend⟩

end GoogleDriveOAuth

end HolderDaemon
