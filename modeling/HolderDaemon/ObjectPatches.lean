import HolderDaemon.Assoc
import HolderDaemon.Edits
import HolderDaemon.Json
import HolderDaemon.RequestLane

/-!
PATCH of a resource or a location (`api/routes/AiResourceRoutes.cpp`) and of an AI message
(`api/routes/ai/messages/AiMessageCrudRoutes.cpp`): the handler reads the whole object, changes
the fields that the body has, and writes the whole object back.
-/

set_option autoImplicit false

open Bytes
open Json (of_bind_ok)

namespace HolderDaemon

namespace ObjectPatches

/-- The body is what the parser makes of the text, `now` the clock, and `truncate` what a
floating-point number is as an integer. -/
structure PatchRequest where
  body : Except Bytes Json
  now : Int64
  truncate : Bytes → Int64 := fun _ => 0

/-- `get<long long>()`. -/
def PatchRequest.getTime (r : PatchRequest) : Json → Except Bytes Int64
  | .float text => .ok (r.truncate text)
  | .bool b => .ok (if b then 1 else 0)
  | j => j.getInt64

/-- `body.value("updated_at", now)`. -/
def PatchRequest.updatedAt (r : PatchRequest) (body : Json) : Except Bytes Int64 :=
  match body with
  | .obj _ =>
    match body.field? (ascii "updated_at") with
    | some j => r.getTime j
    | none => .ok r.now
  | _ => .error (ascii "[json.exception.type_error.306] cannot use value() with " ++ body.typeName)

/-- The entries of an object, each read on its own. -/
def getMap {α : Type} (get : Json → Except Bytes α) : Json → Except Bytes (List (Bytes × α))
  | .obj fields => fields.mapM fun f => do .ok (f.1, ← get f.2)
  | j => .error (j.typeError "object")

def getStrings : Json → Except Bytes (List Bytes)
  | .arr items => items.mapM Json.getString
  | j => .error (j.typeError "array")

/-- A value of one field of an object. -/
inductive FieldValue where
  | text (s : Bytes)
  | optionalText (s : Option Bytes)
  | time (t : Int64)
  | values (v : Option (List Bytes))
  | entries (m : List (Bytes × Bytes))
  deriving DecidableEq

/-! Resources -/

structure Resource where
  resourceId : Bytes
  projectId : Bytes
  type : Bytes
  label : Bytes
  metadata : List (Bytes × List Bytes)
  createdAt : Int64
  updatedAt : Int64
  deriving DecidableEq

inductive ResourceField where
  | type
  | label
  | property (name : Bytes)
  deriving DecidableEq

def Resource.field (r : Resource) : ResourceField → FieldValue
  | .type => .text r.type
  | .label => .text r.label
  | .property name => .values (r.metadata.lookup name)

def patchProperty (metadata : List (Bytes × List Bytes)) (entry : Bytes × List Bytes) :
    List (Bytes × List Bytes) :=
  if entry.2 = [] then Assoc.erase entry.1 metadata else Assoc.set entry.1 entry.2 metadata

def patchMetadata (patch metadata : List (Bytes × List Bytes)) : List (Bytes × List Bytes) :=
  patch.foldl patchProperty metadata

def stringField (body : Json) (key : String) (old : Bytes) : Except Bytes Bytes :=
  match body.field? (ascii key) with
  | some j => j.getString
  | none => .ok old

def metadataField (body : Json) (old : List (Bytes × List Bytes)) :
    Except Bytes (List (Bytes × List Bytes)) :=
  match body.field? (ascii "metadata") with
  | some j => (getMap getStrings j).map fun patch => patchMetadata patch old
  | none => .ok old

def PatchRequest.patchResource (r : PatchRequest) (resource : Resource) :
    Except Bytes Resource := do
  let body ← r.body
  let type ← stringField body "type" resource.type
  let label ← stringField body "label" resource.label
  let metadata ← metadataField body resource.metadata
  let updatedAt ← r.updatedAt body
  .ok { resource with type, label, metadata, updatedAt }

/-! Locations -/

structure Location where
  locationId : Bytes
  projectId : Bytes
  provider : Bytes
  name : Bytes
  configuration : List (Bytes × Bytes)
  createdAt : Int64
  updatedAt : Int64
  deriving DecidableEq

inductive LocationField where
  | name
  | configuration
  deriving DecidableEq

def Location.field (l : Location) : LocationField → FieldValue
  | .name => .text l.name
  | .configuration => .entries l.configuration

def configurationField (body : Json) (old : List (Bytes × Bytes)) :
    Except Bytes (List (Bytes × Bytes)) :=
  match body.field? (ascii "configuration") with
  | some j => getMap Json.getString j
  | none => .ok old

def PatchRequest.patchLocation (r : PatchRequest) (location : Location) :
    Except Bytes Location := do
  let body ← r.body
  let name ← stringField body "name" location.name
  let configuration ← configurationField body location.configuration
  let updatedAt ← r.updatedAt body
  .ok { location with name, configuration, updatedAt }

/-! Messages -/

structure AiMessage where
  messageId : Bytes
  threadId : Bytes
  role : Bytes
  source : Bytes
  provider : Option Bytes
  model : Option Bytes
  content : Bytes
  createdAt : Int64
  deletedAt : Option Int64
  promptHash : Option Bytes
  metaJson : Option Bytes
  deriving DecidableEq

inductive MessageField where
  | role | source | provider | model | content | createdAt | promptHash | metaJson
  deriving DecidableEq

def AiMessage.field (m : AiMessage) : MessageField → FieldValue
  | .role => .text m.role
  | .source => .text m.source
  | .provider => .optionalText m.provider
  | .model => .optionalText m.model
  | .content => .text m.content
  | .createdAt => .time m.createdAt
  | .promptHash => .optionalText m.promptHash
  | .metaJson => .optionalText m.metaJson

/-- A field that null leaves as it is. -/
def keptField {α : Type} (get : Json → Except Bytes α) (body : Json) (key : String) (old : α) :
    Except Bytes α :=
  match body.field? (ascii key) with
  | some .null => .ok old
  | some j => get j
  | none => .ok old

/-- A field that null clears. -/
def clearedField (body : Json) (key : String) (old : Option Bytes) : Except Bytes (Option Bytes) :=
  match body.field? (ascii key) with
  | some .null => .ok none
  | some j => j.getString.map some
  | none => .ok old

def PatchRequest.patchMessage (r : PatchRequest) (message : AiMessage) :
    Except Bytes AiMessage := do
  let body ← r.body
  if message.deletedAt.isSome then .error (ascii "AI message is deleted.")
  else
    let role ← keptField Json.getString body "role" message.role
    let source ← keptField Json.getString body "source" message.source
    let provider ← clearedField body "provider" message.provider
    let model ← clearedField body "model" message.model
    let content ← keptField Json.getString body "content" message.content
    let createdAt ← keptField r.getTime body "created_at" message.createdAt
    let promptHash ← clearedField body "prompt_hash" message.promptHash
    let metaJson ← clearedField body "meta_json" message.metaJson
    .ok { message with role, source, provider, model, content, createdAt, promptHash, metaJson }

/-! What a body sets -/

def setString (body : Json) (key : String) : Option FieldValue :=
  (body.field? (ascii key)).bind fun j => j.getString.toOption.map .text

def setKept {α : Type} (get : Json → Except Bytes α) (value : α → FieldValue) (body : Json)
    (key : String) : Option FieldValue :=
  match body.field? (ascii key) with
  | some .null => none
  | some j => (get j).toOption.map value
  | none => none

def setCleared (body : Json) (key : String) : Option FieldValue :=
  match body.field? (ascii key) with
  | some .null => some (.optionalText none)
  | some j => j.getString.toOption.map fun s => .optionalText (some s)
  | none => none

def PatchRequest.resourceSets (r : PatchRequest) (field : ResourceField) : Option FieldValue :=
  match r.body with
  | .error _ => none
  | .ok body =>
    match field with
    | .type => setString body "type"
    | .label => setString body "label"
    | .property name => do
      let patch ← (getMap getStrings (← body.field? (ascii "metadata"))).toOption
      let values ← patch.reverse.lookup name
      some (.values (if values = [] then none else some values))

def PatchRequest.locationSets (r : PatchRequest) (field : LocationField) : Option FieldValue :=
  match r.body with
  | .error _ => none
  | .ok body =>
    match field with
    | .name => setString body "name"
    | .configuration =>
      (body.field? (ascii "configuration")).bind fun j =>
        (getMap Json.getString j).toOption.map .entries

def PatchRequest.messageSets (r : PatchRequest) (field : MessageField) : Option FieldValue :=
  match r.body with
  | .error _ => none
  | .ok body =>
    match field with
    | .role => setKept Json.getString .text body "role"
    | .source => setKept Json.getString .text body "source"
    | .provider => setCleared body "provider"
    | .model => setCleared body "model"
    | .content => setKept Json.getString .text body "content"
    | .createdAt => setKept r.getTime .time body "created_at"
    | .promptHash => setCleared body "prompt_hash"
    | .metaJson => setCleared body "meta_json"

theorem stringField_sets {body : Json} {key : String} {old s : Bytes}
    (h : stringField body key old = .ok s) : .text s = (setString body key).getD (.text old) := by
  unfold stringField at h
  unfold setString
  split at h
  · rename_i j hfield
    rw [hfield, Option.bind_some, h]
    rfl
  · rename_i hfield
    cases h
    rw [hfield]
    rfl

theorem keptField_sets {α : Type} {get : Json → Except Bytes α} (value : α → FieldValue)
    {body : Json} {key : String} {old a : α} (h : keptField get body key old = .ok a) :
    value a = (setKept get value body key).getD (value old) := by
  unfold keptField at h
  unfold setKept
  split at h
  · cases h
    rfl
  · rw [h]
    rfl
  · cases h
    rfl

theorem clearedField_sets {body : Json} {key : String} {old a : Option Bytes}
    (h : clearedField body key old = .ok a) :
    .optionalText a = (setCleared body key).getD (.optionalText old) := by
  unfold clearedField at h
  unfold setCleared
  split at h
  · cases h
    rfl
  · rename_i j hnull hfield
    cases j with
    | str s =>
      cases h
      rfl
    | _ => cases h
  · cases h
    rfl

theorem lookup_patchProperty (metadata : List (Bytes × List Bytes)) (name : Bytes)
    (values : List Bytes) (other : Bytes) :
    (patchProperty metadata (name, values)).lookup other =
      if other = name then (if values = [] then none else some values)
      else metadata.lookup other := by
  unfold patchProperty
  by_cases hname : other = name
  · subst hname
    by_cases hvalues : values = []
    · simp [hvalues, Assoc.lookup_erase_self]
    · simp [hvalues, Assoc.lookup_set_self]
  · rw [if_neg hname]
    split
    · exact Assoc.lookup_erase_ne (Ne.symm hname) metadata
    · exact Assoc.lookup_set_ne (Ne.symm hname) values metadata

/-- The last entry of a property decides. -/
theorem lookup_patchMetadata (patch metadata : List (Bytes × List Bytes)) (name : Bytes) :
    (patchMetadata patch metadata).lookup name =
      match patch.reverse.lookup name with
      | some values => if values = [] then none else some values
      | none => metadata.lookup name := by
  induction patch generalizing metadata with
  | nil => rfl
  | cons entry patch ih =>
    obtain ⟨property, values⟩ := entry
    have hstep : patchMetadata ((property, values) :: patch) metadata =
        patchMetadata patch (patchProperty metadata (property, values)) := rfl
    rw [hstep, ih, List.reverse_cons, List.lookup_append, lookup_patchProperty]
    cases patch.reverse.lookup name with
    | some later => rfl
    | none =>
      by_cases hname : name = property
      · subst hname
        simp
      · have hb : (name == property) = false := by simpa using hname
        simp [hname, List.lookup_cons, hb]

theorem patchResource_sets {r : PatchRequest} {old new : Resource}
    (h : r.patchResource old = .ok new) (field : ResourceField) :
    new.field field = (r.resourceSets field).getD (old.field field) := by
  unfold PatchRequest.patchResource at h
  obtain ⟨body, hbody, h⟩ := of_bind_ok h
  obtain ⟨type, htype, h⟩ := of_bind_ok h
  obtain ⟨label, hlabel, h⟩ := of_bind_ok h
  obtain ⟨metadata, hmetadata, h⟩ := of_bind_ok h
  obtain ⟨updatedAt, _, h⟩ := of_bind_ok h
  cases h
  simp only [PatchRequest.resourceSets, hbody]
  cases field with
  | type => exact stringField_sets htype
  | label => exact stringField_sets hlabel
  | property name =>
    simp only [Resource.field]
    unfold metadataField at hmetadata
    split at hmetadata
    · rename_i j hfield
      cases hmap : getMap getStrings j with
      | error what =>
        rw [hmap] at hmetadata
        cases hmetadata
      | ok patch =>
        rw [hmap] at hmetadata
        cases hmetadata
        simp only [hfield, hmap, Option.bind_eq_bind, Option.bind_some, Except.toOption,
          lookup_patchMetadata]
        cases patch.reverse.lookup name <;> rfl
    · rename_i hfield
      cases hmetadata
      simp only [hfield, Option.bind_eq_bind, Option.bind_none]
      rfl

theorem patchLocation_sets {r : PatchRequest} {old new : Location}
    (h : r.patchLocation old = .ok new) (field : LocationField) :
    new.field field = (r.locationSets field).getD (old.field field) := by
  unfold PatchRequest.patchLocation at h
  obtain ⟨body, hbody, h⟩ := of_bind_ok h
  obtain ⟨name, hname, h⟩ := of_bind_ok h
  obtain ⟨configuration, hconfiguration, h⟩ := of_bind_ok h
  obtain ⟨updatedAt, _, h⟩ := of_bind_ok h
  cases h
  simp only [PatchRequest.locationSets, hbody]
  cases field with
  | name => exact stringField_sets hname
  | configuration =>
    simp only [Location.field]
    unfold configurationField at hconfiguration
    split at hconfiguration
    · rename_i j hfield
      rw [hfield, Option.bind_some, hconfiguration]
      rfl
    · rename_i hfield
      cases hconfiguration
      rw [hfield]
      rfl

theorem patchMessage_sets {r : PatchRequest} {old new : AiMessage}
    (h : r.patchMessage old = .ok new) (field : MessageField) :
    new.field field = (r.messageSets field).getD (old.field field) := by
  unfold PatchRequest.patchMessage at h
  obtain ⟨body, hbody, h⟩ := of_bind_ok h
  split at h
  · cases h
  obtain ⟨role, hrole, h⟩ := of_bind_ok h
  obtain ⟨source, hsource, h⟩ := of_bind_ok h
  obtain ⟨provider, hprovider, h⟩ := of_bind_ok h
  obtain ⟨model, hmodel, h⟩ := of_bind_ok h
  obtain ⟨content, hcontent, h⟩ := of_bind_ok h
  obtain ⟨createdAt, hcreated, h⟩ := of_bind_ok h
  obtain ⟨promptHash, hhash, h⟩ := of_bind_ok h
  obtain ⟨metaJson, hmeta, h⟩ := of_bind_ok h
  cases h
  simp only [PatchRequest.messageSets, hbody]
  cases field with
  | role => exact keptField_sets .text hrole
  | source => exact keptField_sets .text hsource
  | provider => exact clearedField_sets hprovider
  | model => exact clearedField_sets hmodel
  | content => exact keptField_sets .text hcontent
  | createdAt => exact keptField_sets .time hcreated
  | promptHash => exact clearedField_sets hhash
  | metaJson => exact clearedField_sets hmeta

/-! The three kinds of objects -/

inductive Kind where
  | resource | location | message
  deriving DecidableEq, Repr

def Kind.Object : Kind → Type
  | .resource => Resource
  | .location => Location
  | .message => AiMessage

def Kind.Field : Kind → Type
  | .resource => ResourceField
  | .location => LocationField
  | .message => MessageField

def Kind.view : (kind : Kind) → kind.Object → kind.Field → FieldValue
  | .resource => Resource.field
  | .location => Location.field
  | .message => AiMessage.field

/-- The PATCH handler of the kind. -/
def Kind.patch : (kind : Kind) → PatchRequest → Edits.Patch kind.view Bytes
  | .resource, r => ⟨r.resourceSets, r.patchResource, fun _ _ h => patchResource_sets h⟩
  | .location, r => ⟨r.locationSets, r.patchLocation, fun _ _ h => patchLocation_sets h⟩
  | .message, r => ⟨r.messageSets, r.patchMessage, fun _ _ h => patchMessage_sets h⟩

/-- Two requests that set different fields of one object, each answered with success, are both
kept exactly where none of them writes over the other one's write with an object that it had read
before it, or the object had the other one's values from the start. -/
theorem disjoint_patches_kept (kind : Kind) (requests : Worker → PatchRequest)
    {start : kind.Object} {a b : Worker} {steps : List (Edits.Step Worker)}
    {s : Edits.Shared kind.Object Worker} (hne : a ≠ b)
    (hdisjoint : (kind.patch (requests a)).Disjoint (kind.patch (requests b)))
    (hends : Edits.Ends (fun worker => kind.patch (requests worker)) a b
      ⟨start, fun _ => .waiting⟩ steps s) :
    ((kind.patch (requests a)).Carried s.stored ∧ (kind.patch (requests b)).Carried s.stored) ↔
      (Edits.Overwrites steps a b → (kind.patch (requests b)).Carried start) ∧
        (Edits.Overwrites steps b a → (kind.patch (requests a)).Carried start) :=
  Edits.both_carried_iff hends hne hdisjoint

/-! One resource -/

def book : Resource where
  resourceId := ascii "r1"
  projectId := ascii "p1"
  type := ascii "book"
  label := ascii "Old"
  metadata := []
  createdAt := 1
  updatedAt := 1

def setField (key value : String) : PatchRequest where
  body := .ok (.obj [(ascii key, .str (ascii value))])
  now := 2

def relabel : Worker → PatchRequest
  | .general 0 => setField "label" "New"
  | _ => setField "type" "article"

theorem relabel_disjoint :
    (Kind.resource.patch (relabel (.general 0))).Disjoint
      (Kind.resource.patch (relabel (.general 1))) := by
  intro field
  cases field with
  | type => exact .inl (by decide +kernel)
  | label => exact .inr (by decide +kernel)
  | property name => exact .inl rfl

def general (i : Nat) : Worker := .general i

/-- Both workers read before either one writes. -/
def overlapping : List (Edits.Step Worker) :=
  [.read (general 0), .read (general 1), .write (general 0), .write (general 1)]

def oneAfterTheOther : List (Edits.Step Worker) :=
  [.read (general 0), .write (general 0), .read (general 1), .write (general 1)]

/-- The label that the first request set is gone. -/
theorem overlapping_patch_lost :
    (({} : ConcurrencyProfile).serves (general 0)
      (classifyRequestLane .patch (ascii "/resources/r1")) = true ∧
    ({} : ConcurrencyProfile).serves (general 1)
      (classifyRequestLane .patch (ascii "/resources/r1")) = true) ∧
    ∃ s : Edits.Shared Resource Worker,
      Edits.Ends (fun worker => Kind.resource.patch (relabel worker)) (general 0) (general 1)
        ⟨book, fun _ => .waiting⟩ overlapping s ∧
      s.stored.label = ascii "Old" ∧
      ¬ (Kind.resource.patch (relabel (general 0))).Carried s.stored := by
  refine ⟨by decide +kernel, ?_⟩
  obtain ⟨s, hrun, htest⟩ := Machine.run_of_any
    (Edits.step fun worker => Kind.resource.patch (relabel worker))
    (⟨book, fun _ => .waiting⟩ : Edits.Shared Resource Worker) overlapping
    (fun s : Edits.Shared Resource Worker => decide (s.jobs (general 0) = .answered true ∧
      s.jobs (general 1) = .answered true ∧ s.stored.label = ascii "Old"))
    (by decide +kernel)
  obtain ⟨hfirst, hsecond, hlabel⟩ := of_decide_eq_true htest
  refine ⟨s, ⟨by decide +kernel, hrun, hfirst, hsecond⟩, hlabel, fun hcarried => ?_⟩
  have hnew : Kind.resource.view s.stored .label = .text (ascii "New") :=
    hcarried .label _ (by decide +kernel)
  have hold : Kind.resource.view s.stored .label = .text (ascii "Old") :=
    congrArg FieldValue.text hlabel
  rw [hold] at hnew
  exact absurd hnew (by decide)

theorem disjoint_patches_kept_serial :
    ∃ s : Edits.Shared Resource Worker,
      Machine.run (Edits.step fun worker => Kind.resource.patch (relabel worker))
        ⟨book, fun _ => .waiting⟩ oneAfterTheOther = some s ∧
      (Kind.resource.patch (relabel (general 0))).Carried s.stored ∧
      (Kind.resource.patch (relabel (general 1))).Carried s.stored := by
  obtain ⟨s, hrun, htest⟩ := Machine.run_of_any
    (Edits.step fun worker => Kind.resource.patch (relabel worker))
    (⟨book, fun _ => .waiting⟩ : Edits.Shared Resource Worker) oneAfterTheOther
    (fun s : Edits.Shared Resource Worker => decide (s.jobs (general 0) = .answered true ∧
      s.jobs (general 1) = .answered true))
    (by decide +kernel)
  obtain ⟨hfirst, hsecond⟩ := of_decide_eq_true htest
  have hends : Edits.Ends (fun worker => Kind.resource.patch (relabel worker)) (general 0)
      (general 1) ⟨book, fun _ => .waiting⟩ oneAfterTheOther s :=
    ⟨by decide +kernel, hrun, hfirst, hsecond⟩
  have hboth := disjoint_patches_kept .resource relabel (by decide) relabel_disjoint hends
  have hserial : ¬ Edits.Overwrites oneAfterTheOther (general 0) (general 1) ∧
      ¬ Edits.Overwrites oneAfterTheOther (general 1) (general 0) := by decide +kernel
  exact ⟨s, hrun, hboth.mpr
    ⟨fun hover => absurd hover hserial.1, fun hover => absurd hover hserial.2⟩⟩

end ObjectPatches

end HolderDaemon
