import HolderDaemon.Exchanges
import HolderDaemon.ObjectStore
import HolderDaemon.S3Requests

/-!
An S3 bucket as a store of objects (`storage/S3CompatibleProvider.cpp`). The service behind the
requests is a parameter, with what its documentation says of the requests that are made; their
signing is left to `S3Requests`.
-/

set_option autoImplicit false

open Bytes

namespace HolderDaemon

namespace S3Store

open Exchanges ObjectStore S3Requests
open S3Download (StorageError endpointUnavailable invalidObjectKey mapStatus retried validKey)

inductive Failure where
  | storage (e : StorageError)
  | integrity (message : Bytes)

structure Request where
  verb : Verb
  target : Bytes
  body : Bytes := []

structure Response where
  status : Nat
  body : Bytes := []

section Provider
variable {σ : Type} (handle : σ → Request → Response × σ) (config : S3CompatibleConfig)
  (endpoint : Endpoint)

/-- Why a file of the caller could not be opened, where it could not be. -/
structure Turn where
  faults : List (Fault Bytes) := []
  unopened : Option Bytes := none

def asksAgain (response : Response) : Bool := retried response.status

/-- The loop of `request`. A file that cannot be opened fails every attempt before anything is
sent, so that the endpoint is said to be unavailable. -/
def request (w : World σ Bytes) (verb : Verb) (objectKey body : Bytes) (unopened : Option Bytes) :
    Except Failure Response × World σ Bytes :=
  if validKey objectKey = false then (.error (.storage invalidObjectKey), w)
  else
    match unopened with
    | some what => (.error (.storage (endpointUnavailable what)), ⟨w.service, w.faults.drop 3⟩)
    | none =>
      match repeated (fun status => { status }) handle asksAgain 2 w
          ⟨verb, targetOf config endpoint objectKey, body⟩ with
      | (.error what, w) => (.error (.storage (endpointUnavailable what)), w)
      | (.ok response, w) => (.ok response, w)

def checkStatus (status : Nat) (operation : String) : Except Failure Unit :=
  (mapStatus status (ascii operation)).mapError .storage

/-- `exists`. -/
def holds (w : World σ Bytes) (objectKey : Bytes) : Except Failure Bool × World σ Bytes :=
  match request handle config endpoint w .head objectKey [] none with
  | (.error e, w) => (.error e, w)
  | (.ok response, w) =>
    if response.status = 404 then (.ok false, w)
    else ((checkStatus response.status "HEAD").map fun _ => true, w)

/-- `stagedFile` is sent with its whole length. -/
def put (w : World σ Bytes) (objectKey stagedFile : Bytes) (unopened : Option Bytes) :
    Except Failure Unit × World σ Bytes :=
  match request handle config endpoint w .put objectKey stagedFile unopened with
  | (.error e, w) => (.error e, w)
  | (.ok response, w) =>
    match checkStatus response.status "PUT" with
    | .error e => (.error e, w)
    | .ok () =>
      match holds handle config endpoint w objectKey with
      | (.error e, w) => (.error e, w)
      | (.ok true, w) => (.ok (), w)
      | (.ok false, w) =>
        (.error (.integrity (ascii "S3 object was not visible after PUT")), w)

/-- The body that a successful download leaves in the destination. -/
def get (w : World σ Bytes) (objectKey : Bytes) (unopened : Option Bytes) :
    Except Failure Bytes × World σ Bytes :=
  match request handle config endpoint w .get objectKey [] unopened with
  | (.error e, w) => (.error e, w)
  | (.ok response, w) => ((checkStatus response.status "GET").map fun _ => response.body, w)

def remove (w : World σ Bytes) (objectKey : Bytes) : Except Failure Unit × World σ Bytes :=
  match request handle config endpoint w .delete objectKey [] none with
  | (.error e, w) => (.error e, w)
  | (.ok response, w) =>
    if response.status = 404 then (.ok (), w) else (checkStatus response.status "DELETE", w)

def resultOf {α : Type} (f : α → Result Bytes) : Except Failure α × World σ Bytes → Result Bytes × σ
  | (.ok a, w) => (f a, w.service)
  | (.error _, w) => (.failed, w.service)

def exec (s : σ) (op : Op Bytes Bytes) (turn : Turn) : Result Bytes × σ :=
  let w : World σ Bytes := ⟨s, turn.faults⟩
  match op with
  | .put objectKey object =>
    resultOf (fun _ => .done) (put handle config endpoint w objectKey object turn.unopened)
  | .get objectKey => resultOf .object (get handle config endpoint w objectKey turn.unopened)
  | .holds objectKey => resultOf .holds (holds handle config endpoint w objectKey)
  | .remove objectKey => resultOf (fun _ => .done) (remove handle config endpoint w objectKey)

end Provider

/-! The service -/

/-- What the code relies on: an object stands under each target, and a request is about the one
it names. -/
structure Behaves {σ : Type} (objects : σ → Store Bytes Bytes)
    (handle : σ → Request → Response × σ) : Prop where
  put : ∀ s target body, (handle s ⟨.put, target, body⟩).1.status = 200 ∧
    objects (handle s ⟨.put, target, body⟩).2 = Function.update (objects s) target (some body)
  get : ∀ s target,
    (match objects s target with
      | some object => (handle s ⟨.get, target, []⟩).1 = ⟨200, object⟩
      | none => (handle s ⟨.get, target, []⟩).1.status = 404) ∧
    objects (handle s ⟨.get, target, []⟩).2 = objects s
  head : ∀ s target,
    (handle s ⟨.head, target, []⟩).1.status = (if (objects s target).isSome then 200 else 404) ∧
    objects (handle s ⟨.head, target, []⟩).2 = objects s
  delete : ∀ s target,
    ((handle s ⟨.delete, target, []⟩).1.status = 204 ∨
      (handle s ⟨.delete, target, []⟩).1.status = 404) ∧
    objects (handle s ⟨.delete, target, []⟩).2 = Function.update (objects s) target none

/-- No refusal that is final, and no three faults in a row. -/
def Mild (faults : List (Fault Bytes)) : Prop :=
  mild (fun status => !asksAgain { status }) 2 2 faults = true

theorem checkStatus_ok {status : Nat} (h : S3Download.succeeds status = true) (operation : String) :
    checkStatus status operation = .ok () := by
  rw [checkStatus, mapStatus, if_pos h]
  rfl

theorem checkStatus_error {status : Nat} (h : 400 ≤ status) (operation : String) :
    ∃ e, checkStatus status operation = .error e := by
  have hnot : S3Download.succeeds status = false := by
    simp only [S3Download.succeeds, Bool.and_eq_false_iff, decide_eq_false_iff_not]
    omega
  have hok := S3Download.mapStatus_isOk status (ascii operation)
  rw [hnot] at hok
  rw [checkStatus]
  cases hstatus : mapStatus status (ascii operation) with
  | error e => exact ⟨_, rfl⟩
  | ok _ =>
    rw [hstatus] at hok
    cases hok

section Service
variable {σ : Type} {handle : σ → Request → Response × σ} {config : S3CompatibleConfig}
  {endpoint : Endpoint} {objects : σ → Store Bytes Bytes} {objectKey : Bytes}

/-- What a request comes to that may be made again without harm. -/
theorem request_cases (verb : Verb) (body : Bytes) {I : σ → Prop}
    (hvalid : validKey objectKey = true)
    (hkeep : ∀ s, I s → I (handle s ⟨verb, targetOf config endpoint objectKey, body⟩).2)
    (hanswers : ∀ s, I s →
      asksAgain (handle s ⟨verb, targetOf config endpoint objectKey, body⟩).1 = false)
    {w : World σ Bytes} (hw : I w.service) (unopened : Option Bytes) :
    ∃ result t, request handle config endpoint w verb objectKey body unopened = (result, t) ∧
      I t.service ∧
      ((∃ s, I s ∧
          result = .ok (handle s ⟨verb, targetOf config endpoint objectKey, body⟩).1 ∧
          t.service = (handle s ⟨verb, targetOf config endpoint objectKey, body⟩).2 ∧
          (Mild w.faults → Mild t.faults)) ∨
        ((Mild w.faults → unopened ≠ none) ∧
          ((∃ e, result = .error e) ∨
            ∃ status, 400 ≤ status ∧ status ≠ 404 ∧ result = .ok { status := status }))) := by
  have hvalid' : ¬ validKey objectKey = false := by simp [hvalid]
  cases unopened with
  | some what =>
    refine ⟨.error (.storage (endpointUnavailable what)), ⟨w.service, w.faults.drop 3⟩, ?_, hw,
      .inr ⟨fun _ => Option.some_ne_none _, .inl ⟨_, rfl⟩⟩⟩
    rw [request, if_neg hvalid']
  | none =>
    obtain ⟨result, t, hrepeated, ht, hcases⟩ :=
      repeated_cases (fun status => ({ status } : Response)) hkeep hanswers 2 2 hw
    rw [request, if_neg hvalid']
    simp only [hrepeated]
    rcases hcases with ⟨s, hs, rfl, hservice, hmild⟩ | ⟨hnot, ⟨what, rfl⟩ | hrefused⟩
    · exact ⟨_, _, rfl, ht, .inl ⟨s, hs, rfl, hservice, hmild⟩⟩
    · refine ⟨_, _, rfl, ht, .inr ⟨fun hmild => ?_, .inl ⟨_, rfl⟩⟩⟩
      rw [Mild, hnot] at hmild
      cases hmild
    · obtain ⟨status, hstatus, hfound, rfl⟩ := hrefused
      refine ⟨_, _, rfl, ht, .inr ⟨fun hmild => ?_, .inr ⟨status, hstatus, hfound, rfl⟩⟩⟩
      rw [Mild, hnot] at hmild
      cases hmild

variable (config endpoint) in
theorem holds_cases (hservice : Behaves objects handle) (hvalid : validKey objectKey = true)
    (w : World σ Bytes) :
    ∃ result t, holds handle config endpoint w objectKey = (result, t) ∧
      objects t.service = objects w.service ∧
      (result = .ok (objects w.service (targetOf config endpoint objectKey)).isSome ∨
        (∃ e, result = .error e) ∧ ¬ Mild w.faults) := by
  have hhead : ∀ s, objects s = objects w.service →
      (handle s ⟨.head, targetOf config endpoint objectKey, []⟩).1.status =
        if (objects w.service (targetOf config endpoint objectKey)).isSome then 200 else 404 :=
    fun s hs => hs ▸ (hservice.head s _).1
  obtain ⟨result, t, hrequest, ht, hcases⟩ := request_cases .head []
    (I := fun s => objects s = objects w.service) hvalid
    (fun s hs => (hservice.head s _).2.trans hs)
    (fun s hs => by
      rw [asksAgain, hhead s hs]
      split <;> rfl) rfl none
  rw [holds, hrequest]
  rcases hcases with ⟨s, hs, rfl, -, -⟩ | ⟨hnot, ⟨e, rfl⟩ | ⟨status, hstatus, hfound, rfl⟩⟩
  · simp only [hhead s hs]
    cases (objects w.service (targetOf config endpoint objectKey)).isSome with
    | false => exact ⟨_, _, rfl, ht, .inl rfl⟩
    | true =>
      have hok : checkStatus 200 "HEAD" = .ok () := checkStatus_ok rfl _
      simp only [if_true, hok]
      exact ⟨_, _, rfl, ht, .inl rfl⟩
  · exact ⟨_, _, rfl, ht, .inr ⟨⟨e, rfl⟩, fun hmild => hnot hmild rfl⟩⟩
  · obtain ⟨e, he⟩ := checkStatus_error hstatus "HEAD"
    simp only [if_neg hfound, he]
    exact ⟨_, _, rfl, ht, .inr ⟨⟨e, rfl⟩, fun hmild => hnot hmild rfl⟩⟩

variable (config endpoint) in
theorem get_cases (hservice : Behaves objects handle) (hvalid : validKey objectKey = true)
    (w : World σ Bytes) (unopened : Option Bytes) :
    ∃ result t, get handle config endpoint w objectKey unopened = (result, t) ∧
      objects t.service = objects w.service ∧
      ((∃ object, objects w.service (targetOf config endpoint objectKey) = some object ∧
          result = .ok object) ∨
        (∃ e, result = .error e) ∧
          (objects w.service (targetOf config endpoint objectKey) = none ∨
            (Mild w.faults → unopened ≠ none))) := by
  have hget : ∀ s, objects s = objects w.service →
      match objects w.service (targetOf config endpoint objectKey) with
      | some object =>
        (handle s ⟨.get, targetOf config endpoint objectKey, []⟩).1 = ⟨200, object⟩
      | none => (handle s ⟨.get, targetOf config endpoint objectKey, []⟩).1.status = 404 :=
    fun s hs => hs ▸ (hservice.get s _).1
  obtain ⟨result, t, hrequest, ht, hcases⟩ := request_cases .get []
    (I := fun s => objects s = objects w.service) hvalid
    (fun s hs => (hservice.get s _).2.trans hs)
    (fun s hs => by
      have hs' := hget s hs
      split at hs'
      · rw [hs']
        rfl
      · rw [asksAgain, hs']
        rfl) rfl unopened
  rw [get, hrequest]
  rcases hcases with ⟨s, hs, rfl, -, -⟩ | ⟨hnot, ⟨e, rfl⟩ | ⟨status, hstatus, -, rfl⟩⟩
  · have hs' := hget s hs
    cases hobject : objects w.service (targetOf config endpoint objectKey) with
    | some object =>
      rw [hobject] at hs'
      have hok : checkStatus 200 "GET" = .ok () := checkStatus_ok rfl _
      simp only [hs', hok]
      exact ⟨_, _, rfl, ht, .inl ⟨object, rfl, rfl⟩⟩
    | none =>
      rw [hobject] at hs'
      have hmissing : 400 ≤ 404 := by omega
      obtain ⟨e, he⟩ := checkStatus_error hmissing "GET"
      simp only [hs', he]
      exact ⟨_, _, rfl, ht, .inr ⟨⟨e, rfl⟩, .inl trivial⟩⟩
  · exact ⟨_, _, rfl, ht, .inr ⟨⟨e, rfl⟩, .inr hnot⟩⟩
  · obtain ⟨e, he⟩ := checkStatus_error hstatus "GET"
    simp only [he]
    exact ⟨_, _, rfl, ht, .inr ⟨⟨e, rfl⟩, .inr hnot⟩⟩

/-- The objects of `s`, or these with what is written under the target. -/
def Maybe (objects : σ → Store Bytes Bytes) (s : σ) (target : Bytes) (value : Option Bytes)
    (t : σ) : Prop :=
  objects t = objects s ∨ objects t = Function.update (objects s) target value

theorem Maybe.write {s t u : σ} {target : Bytes} {value : Option Bytes}
    (h : Maybe objects s target value t)
    (hu : objects u = Function.update (objects t) target value) :
    objects u = Function.update (objects s) target value := by
  rcases h with h | h
  · rw [hu, h]
  · rw [hu, h, Function.update_idem]

variable (config endpoint) in
theorem remove_cases (hservice : Behaves objects handle) (hvalid : validKey objectKey = true)
    (w : World σ Bytes) :
    ∃ result t, remove handle config endpoint w objectKey = (result, t) ∧
      Maybe objects w.service (targetOf config endpoint objectKey) none t.service ∧
      ((result = .ok () ∧ objects t.service =
          Function.update (objects w.service) (targetOf config endpoint objectKey) none) ∨
        (∃ e, result = .error e) ∧ ¬ Mild w.faults) := by
  obtain ⟨result, t, hrequest, ht, hcases⟩ := request_cases .delete []
    (I := Maybe objects w.service (targetOf config endpoint objectKey) none) hvalid
    (fun s hs => .inr (hs.write (hservice.delete s _).2))
    (fun s hs => by
      rcases (hservice.delete s (targetOf config endpoint objectKey)).1 with h | h <;>
        (rw [asksAgain, h]; rfl)) (.inl rfl) none
  rw [remove, hrequest]
  rcases hcases with ⟨s, hs, rfl, hdeleted, -⟩ | ⟨hnot, ⟨e, rfl⟩ | ⟨status, hstatus, hfound, rfl⟩⟩
  · have hobjects := hs.write (hservice.delete s (targetOf config endpoint objectKey)).2
    rw [← hdeleted] at hobjects
    have hok : checkStatus 204 "DELETE" = .ok () := checkStatus_ok rfl _
    rcases (hservice.delete s (targetOf config endpoint objectKey)).1 with h | h
    · simp only [h, hok]
      exact ⟨_, _, rfl, ht, .inl ⟨rfl, hobjects⟩⟩
    · simp only [h]
      exact ⟨_, _, rfl, ht, .inl ⟨rfl, hobjects⟩⟩
  · exact ⟨_, _, rfl, ht, .inr ⟨⟨e, rfl⟩, fun hmild => hnot hmild rfl⟩⟩
  · obtain ⟨e, he⟩ := checkStatus_error hstatus "DELETE"
    simp only [if_neg hfound, he]
    exact ⟨_, _, rfl, ht, .inr ⟨⟨e, rfl⟩, fun hmild => hnot hmild rfl⟩⟩

variable (config endpoint) in
theorem put_cases (hservice : Behaves objects handle) (hvalid : validKey objectKey = true)
    (w : World σ Bytes) (object : Bytes) (unopened : Option Bytes) :
    ∃ result t, put handle config endpoint w objectKey object unopened = (result, t) ∧
      Maybe objects w.service (targetOf config endpoint objectKey) (some object) t.service ∧
      ((result = .ok () ∧ objects t.service =
          Function.update (objects w.service) (targetOf config endpoint objectKey)
            (some object)) ∨
        (∃ e, result = .error e) ∧ (Mild w.faults → unopened ≠ none)) := by
  have hput := fun s => hservice.put s (targetOf config endpoint objectKey) object
  obtain ⟨result, t, hrequest, ht, hcases⟩ := request_cases .put object
    (I := Maybe objects w.service (targetOf config endpoint objectKey) (some object)) hvalid
    (fun s hs => .inr (hs.write (hput s).2))
    (fun s hs => by
      rw [asksAgain, (hput s).1]
      rfl) (.inl rfl) unopened
  rw [put, hrequest]
  rcases hcases with ⟨s, hs, rfl, hwritten, hmild⟩ | ⟨hnot, ⟨e, rfl⟩ | ⟨status, hstatus, -, rfl⟩⟩
  · have hobjects := hs.write (hput s).2
    rw [← hwritten] at hobjects
    have hok : checkStatus 200 "PUT" = .ok () := checkStatus_ok rfl _
    simp only [(hput s).1, hok]
    obtain ⟨answer, t', hholds, ht', hanswer⟩ := holds_cases config endpoint hservice hvalid t
    simp only [hholds]
    rw [hobjects, Function.update_self] at hanswer
    rcases hanswer with rfl | ⟨⟨e, rfl⟩, hfaults⟩
    · exact ⟨_, _, rfl, .inr (ht'.trans hobjects), .inl ⟨rfl, ht'.trans hobjects⟩⟩
    · exact ⟨_, _, rfl, .inr (ht'.trans hobjects),
        .inr ⟨⟨e, rfl⟩, fun h => absurd (hmild h) hfaults⟩⟩
  · exact ⟨_, _, rfl, ht, .inr ⟨⟨e, rfl⟩, hnot⟩⟩
  · obtain ⟨e, he⟩ := checkStatus_error hstatus "PUT"
    simp only [he]
    exact ⟨_, _, rfl, ht, .inr ⟨⟨e, rfl⟩, hnot⟩⟩

/-! The operations -/

variable (objects config endpoint) in
/-- The objects under the targets of valid keys. -/
def view (s : σ) : Store Bytes Bytes :=
  fun key => if validKey key then objects s (targetOf config endpoint key) else none

/-- Nothing goes wrong that the operation does not survive. -/
def Sure (turn : Turn) (op : Op Bytes Bytes) : Prop :=
  Mild turn.faults ∧ turn.unopened = none ∧ validKey op.key = true

variable (objects config endpoint) in
/-- The operation took `s` to `t`, and left alone what is not under a key. -/
structure Stepped (op : Op Bytes Bytes) (sure : Prop) (s : σ) (r : Result Bytes) (t : σ) :
    Prop where
  answered : Answered op sure (view config endpoint objects s) r (view config endpoint objects t)
  others : ∀ target, (∀ key, validKey key = true → targetOf config endpoint key ≠ target) →
    objects t target = objects s target

variable {s t : σ} {op : Op Bytes Bytes} {sure : Prop} {r : Result Bytes}

theorem Stepped.still (hobjects : objects t = objects s)
    (hanswered : Answered op sure (view config endpoint objects s) r
      (view config endpoint objects s)) : Stepped config endpoint objects op sure s r t where
  answered := by
    have hview : view config endpoint objects t = view config endpoint objects s := by
      funext key
      rw [view, hobjects, view]
    rw [hview]
    exact hanswered
  others target _ := by rw [hobjects]

theorem Stepped.wrote {value : Option Bytes}
    (htarget : ∀ key other, targetOf config endpoint other = targetOf config endpoint key →
      other = key) (hvalid : validKey op.key = true) (hwrites : op.writes = some value)
    (hobjects : objects t =
      Function.update (objects s) (targetOf config endpoint op.key) value)
    (hr : r = op.answer (view config endpoint objects s) ∨ (r = .failed ∧ ¬ sure)) :
    Stepped config endpoint objects op sure s r t where
  answered := by
    have hview : view config endpoint objects t =
        op.effect (view config endpoint objects s) := by
      funext key
      simp only [Op.effect, hwrites]
      by_cases hkey : key = op.key
      · rw [hkey, Function.update_self, view, if_pos hvalid, hobjects, Function.update_self]
      · have hne : targetOf config endpoint key ≠ targetOf config endpoint op.key :=
          fun h => hkey (htarget _ _ h)
        rw [Function.update_of_ne hkey, view, hobjects, Function.update_of_ne hne, view]
    rw [hview]
    exact .wrote hr
  others target hother := by
    rw [hobjects, Function.update_of_ne (Ne.symm (hother op.key hvalid))]

/-- A write that failed, with its effect or without it. -/
theorem Stepped.maybe {value : Option Bytes}
    (htarget : ∀ key other, targetOf config endpoint other = targetOf config endpoint key →
      other = key) (hvalid : validKey op.key = true) (hwrites : op.writes = some value)
    (h : Maybe objects s (targetOf config endpoint op.key) value t) (hsure : ¬ sure) :
    Stepped config endpoint objects op sure s .failed t := by
  rcases h with h | h
  · exact .still h (.failed op _ hsure)
  · exact .wrote htarget hvalid hwrites h (.inr ⟨rfl, hsure⟩)

/-- No request is made for a key that is not valid. -/
theorem exec_invalid (hinvalid : ¬ validKey op.key = true) (s : σ) (turn : Turn) :
    exec handle config endpoint s op turn = (.failed, s) := by
  have hfalse : validKey op.key = false := by simpa using hinvalid
  cases op <;>
    simp only [Op.key] at hfalse <;>
    simp only [exec, put, get, holds, remove, request, hfalse, if_true] <;> rfl

theorem exec_step
    (htarget : ∀ key other, targetOf config endpoint other = targetOf config endpoint key →
      other = key) (hservice : Behaves objects handle) (s : σ) (op : Op Bytes Bytes)
    (turn : Turn) :
    Stepped config endpoint objects op (Sure turn op) s
      (exec handle config endpoint s op turn).1 (exec handle config endpoint s op turn).2 := by
  by_cases hvalid : validKey op.key = true
  swap
  · rw [exec_invalid hvalid]
    exact .still rfl (.failed op _ fun hsure => hvalid hsure.2.2)
  have hview : view config endpoint objects s op.key =
      objects s (targetOf config endpoint op.key) := if_pos hvalid
  cases op with
  | put objectKey object =>
    have hkey : validKey objectKey = true := hvalid
    obtain ⟨result, t, hput, hmaybe, hcases⟩ :=
      put_cases config endpoint hservice hkey ⟨s, turn.faults⟩ object
        turn.unopened
    simp only [exec, hput]
    rcases hcases with ⟨rfl, hobjects⟩ | ⟨⟨e, rfl⟩, hfaults⟩
    · exact .wrote htarget hvalid rfl hobjects (.inl rfl)
    · exact .maybe htarget hvalid rfl hmaybe fun hsure => hfaults hsure.1 hsure.2.1
  | get objectKey =>
    have hkey : validKey objectKey = true := hvalid
    obtain ⟨result, t, hget, hobjects, hcases⟩ :=
      get_cases config endpoint hservice hkey ⟨s, turn.faults⟩
        turn.unopened
    have hread : Stepped config endpoint objects (.get objectKey) (Sure turn (.get objectKey)) s
        ((view config endpoint objects s objectKey).elim .failed .object) t.service :=
      .still hobjects (.read _ _ rfl)
    simp only [exec, hget]
    rcases hcases with ⟨object, hobject, rfl⟩ | ⟨⟨e, rfl⟩, hmissing | hfaults⟩
    · have hheld : view config endpoint objects s objectKey = some object := hview.trans hobject
      rw [hheld] at hread
      exact hread
    · have hheld : view config endpoint objects s objectKey = none := hview.trans hmissing
      rw [hheld] at hread
      exact hread
    · exact .still hobjects (.failed _ _ fun hsure => hfaults hsure.1 hsure.2.1)
  | holds objectKey =>
    have hkey : validKey objectKey = true := hvalid
    obtain ⟨result, t, hholds, hobjects, hcases⟩ :=
      holds_cases config endpoint hservice hkey ⟨s, turn.faults⟩
    have hread : Stepped config endpoint objects (.holds objectKey) (Sure turn (.holds objectKey))
        s (.holds (view config endpoint objects s objectKey).isSome) t.service :=
      .still hobjects (.read _ _ rfl)
    simp only [exec, hholds]
    rcases hcases with rfl | ⟨⟨e, rfl⟩, hfaults⟩
    · rw [show view config endpoint objects s objectKey = _ from hview] at hread
      exact hread
    · exact .still hobjects (.failed _ _ fun hsure => hfaults hsure.1)
  | remove objectKey =>
    have hkey : validKey objectKey = true := hvalid
    obtain ⟨result, t, hremove, hmaybe, hcases⟩ :=
      remove_cases config endpoint hservice hkey ⟨s, turn.faults⟩
    simp only [exec, hremove]
    rcases hcases with ⟨rfl, hobjects⟩ | ⟨⟨e, rfl⟩, hfaults⟩
    · exact .wrote htarget hvalid rfl hobjects (.inl rfl)
    · exact .maybe htarget hvalid rfl hmaybe fun hsure => hfaults hsure.1

/-- One key, one target. -/
theorem targetOf_injective
    (hendpoint : parseEndpoint config.endpoint config.allowInsecureLocalhost = .ok endpoint)
    (key other : Bytes) (h : targetOf config endpoint other = targetOf config endpoint key) :
    other = key := by
  rw [targetOf_eq hendpoint, targetOf_eq hendpoint] at h
  have hparts := List.append_cancel_left h
  rw [← percentDecode_uriEncodePath other, hparts, percentDecode_uriEncodePath]

/-- Whatever is lost or refused on the way, the provider is a reliable store of objects: an
operation that succeeds did what it says, one that fails did it or nothing. It touches nothing
that is not under a key, and two faults in a row of any request do not make it fail. -/
theorem s3_reliable
    (hendpoint : parseEndpoint config.endpoint config.allowInsecureLocalhost = .ok endpoint)
    (hservice : Behaves objects handle) {s t : σ} {ops : List (Op Bytes Bytes × Turn)}
    {history : List (Op Bytes Bytes × Result Bytes)}
    (hrun : ObjectStore.run (exec handle config endpoint) s ops = (history, t)) :
    Reliable (view config endpoint objects s) history (view config endpoint objects t) ∧
      (∀ target, (∀ key, validKey key = true → targetOf config endpoint key ≠ target) →
        objects t target = objects s target) ∧
      ∀ op turn, Sure turn op → (exec handle config endpoint t op turn).1 =
        op.answer (view config endpoint objects t) := by
  have htarget := targetOf_injective hendpoint
  have hstep : ∀ u op turn,
      (∀ target, (∀ key, validKey key = true → targetOf config endpoint key ≠ target) →
        objects u target = objects s target) → True →
      (∀ target, (∀ key, validKey key = true → targetOf config endpoint key ≠ target) →
        objects (exec handle config endpoint u op turn).2 target = objects s target) ∧
      Allowed op (view config endpoint objects u) (exec handle config endpoint u op turn).1
        (view config endpoint objects (exec handle config endpoint u op turn).2) := by
    intro u op turn hu _
    have h := exec_step htarget hservice u op turn
    exact ⟨fun target hother => (h.others target hother).trans (hu target hother),
      h.answered.allowed⟩
  have hops : ∀ p ∈ ops, True := fun _ _ => trivial
  obtain ⟨hothers, hexplains⟩ := run_explains hstep (fun _ _ => rfl) hops
  rw [hrun] at hothers hexplains
  exact ⟨hexplains.reliable, hothers, fun op turn =>
    (exec_step htarget hservice t op turn).answered.answers⟩

end Service

/-! A service -/

def serve (objects : Store Bytes Bytes) (r : Request) : Response × Store Bytes Bytes :=
  match r.verb with
  | .put => ({ status := 200 }, Function.update objects r.target (some r.body))
  | .get => ((objects r.target).elim { status := 404 } (⟨200, ·⟩), objects)
  | .head => ({ status := if (objects r.target).isSome then 200 else 404 }, objects)
  | .delete => ({ status := 204 }, Function.update objects r.target none)

theorem serve_behaves : Behaves (fun objects => objects) serve where
  put _ _ _ := ⟨rfl, rfl⟩
  get objects target := by
    refine ⟨?_, rfl⟩
    cases hobject : objects target <;> simp [serve, hobject]
  head _ _ := ⟨rfl, rfl⟩
  delete _ _ := ⟨.inl rfl, rfl⟩

def bucketConfig : S3CompatibleConfig where
  endpoint := ascii "https://s3.example.com"
  region := ascii "us-east-1"
  bucket := ascii "b"

/-- The response to an upload is lost and the second attempt is refused; the third succeeds. -/
def retriedUpload : List (Op Bytes Bytes × Turn) :=
  [(.put (ascii "n") (ascii "one"),
      ⟨[.lostAfter (ascii "reset"), .refused overloaded], none⟩),
    (.get (ascii "n"), ⟨[], none⟩), (.remove (ascii "/n"), ⟨[], none⟩)]

theorem s3_reliable_retried :
    ∃ endpoint history t,
      parseEndpoint bucketConfig.endpoint bucketConfig.allowInsecureLocalhost = .ok endpoint ∧
      ObjectStore.run (exec serve bucketConfig endpoint) (fun _ => none) retriedUpload =
        (history, t) ∧
      Reliable (view bucketConfig endpoint (fun objects => objects) fun _ => none) history
        (view bucketConfig endpoint (fun objects => objects) t) := by
  obtain ⟨endpoint, hendpoint⟩ : ∃ endpoint, parseEndpoint bucketConfig.endpoint
      bucketConfig.allowInsecureLocalhost = .ok endpoint := ⟨_, rfl⟩
  cases hrun : ObjectStore.run (exec serve bucketConfig endpoint) (fun _ => none) retriedUpload with
  | mk history t =>
    exact ⟨endpoint, history, t, hendpoint, hrun, (s3_reliable hendpoint serve_behaves hrun).1⟩

end S3Store

end HolderDaemon
