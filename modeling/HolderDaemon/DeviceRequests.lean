import HolderDaemon.DeviceConfig
import HolderDaemon.Effects
import HolderDaemon.Machine

/-!
Requests that write device settings (`api/routes/ai/AiRunnerRoutes.cpp`,
`api/routes/ai/status/AiLocalModelConfigRoutes.cpp`,
`api/routes/ai/providers/AiProviderCredentialRoutes.cpp`, `api/support/ProviderUtils.h`): each
writes rows, then the configuration file, and any statement of it may throw.
-/

set_option autoImplicit false

open Bytes
open Json (of_bind_ok)

namespace HolderDaemon

namespace DeviceConfig

open Runners

/-! Providers -/

def lowercaseAscii (s : Bytes) : Bytes := s.map fun b => if 65 ≤ b ∧ b ≤ 90 then b + 32 else b

def isAlnum (b : UInt8) : Bool :=
  (48 ≤ b && b ≤ 57) || (65 ≤ b && b ≤ 90) || (97 ≤ b && b ≤ 122)

/-- Empty where the name has a character that is not allowed. -/
def normalizeProviderName (raw : Bytes) : Bytes :=
  let key := lowercaseAscii (trimAscii raw)
  if key.all fun b => isAlnum b || b = 45 || b = 95 || b = 46 then key else []

def maskApiKey (apiKey : Bytes) : Bytes :=
  if apiKey = [] then []
  else if apiKey.length ≤ 8 then ascii "****"
  else apiKey.take 4 ++ ascii "..." ++ apiKey.drop (apiKey.length - 2)

/-! Writes -/

inductive Write where
  | localModels (fastModel strongModel deepModel : Option Bytes) (updatedAt : Int64)
  | runner (change : Change)
  | setProvider (setting : ProviderSetting)
  | removeProvider (provider : Bytes)
  | setSecret (secret : Secret)
  | removeSecret (account : Bytes)
  | setCredential (credential : Credential)
  | removeCredential (provider : Bytes)

def Write.apply (d : Device) : Write → Device
  | .localModels fastModel strongModel deepModel updatedAt =>
    { d with localModels := setLocalModels fastModel strongModel deepModel updatedAt }
  | .runner change => { d with runners := change.apply d.runners }
  | .setProvider setting => { d with providers := d.providers.upsert setting }
  | .removeProvider provider => { d with providers := d.providers.remove provider }
  | .setSecret secret => { d with secrets := Rows.put Secret.account secret d.secrets }
  | .removeSecret account => { d with secrets := Rows.drop Secret.account account d.secrets }
  | .setCredential credential =>
    { d with credentials := Rows.put Credential.provider credential d.credentials }
  | .removeCredential provider =>
    { d with credentials := Rows.drop Credential.provider provider d.credentials }

def Device.perform (d : Device) (writes : List Write) : Device := writes.foldl Write.apply d

inductive Reply where
  | localModels (config : Option AiLocalModelConfig)
  | runner (answer : Answer)
  | provider (setting : ProviderSetting)
  | credential (credential : Credential)
  | removed (provider : Bytes)
  | rejected (answer : Answer)
  /-- 400 or 503 with the text of an exception. -/
  | threw

def Reply.success : Reply → Bool
  | .rejected _ => false
  | .threw => false
  | _ => true

/-- What a request does once its checks have passed: reads, writes of rows, the file, the refresh
of the worker's registry, and reads for the answer. -/
structure Plan where
  reads : Nat := 0
  writes : List Write
  refresh : Bool := false
  readBack : Bool := false
  reply : Device → Reply

inductive Effect where
  | read
  | write (w : Write)
  | persist
  /-- The file's permissions, after it has been replaced. -/
  | restrict
  | refresh

def Effect.act (d : Device) : Effect → Option Device
  | .write w => some (w.apply d)
  | .persist => persistDeviceConfig d
  | _ => some d

def Plan.after (p : Plan) : List Effect :=
  .restrict :: ((if p.refresh then [.refresh] else []) ++ if p.readBack then [.read] else [])

def Plan.effects (p : Plan) : List Effect :=
  List.replicate p.reads .read ++ (p.writes.map .write ++ .persist :: p.after)

/-! Requests -/

/-- A parsed body; the parser takes UTF-8 only. -/
structure Body where
  json : Json
  utf8 : json.encodable = true

/-- `uuid` and `now` are what the request draws, `client` is its worker's `get_client`, and
`truncate` what a floating-point number is as an integer. -/
structure DeviceRequest where
  method : Method
  path : Bytes
  body : Except Bytes Body
  uuid : Bytes
  uuidUtf8 : validUtf8 uuid = true
  now : Int64
  client : Bytes → Option Client := fun _ => none
  truncate : Bytes → Int64 := fun _ => 0

def DeviceRequest.json (r : DeviceRequest) : Except Bytes Json := r.body.map Body.json

/-- `get<long long>()`. -/
def DeviceRequest.getTime (r : DeviceRequest) : Json → Except Answer Int64
  | .float text => .ok (r.truncate text)
  | .bool b => .ok (if b then 1 else 0)
  | j => j.getInt64.mapError badRequest

def DeviceRequest.updatedAt (r : DeviceRequest) (body : Json) : Except Answer Int64 :=
  match given body "updated_at" with
  | none => .ok r.now
  | some j => r.getTime j

def readOptionalModel (body : Json) (key : String) : Except Answer (Option Bytes) :=
  match given body key with
  | none => .ok none
  | some j => do
    let value ← getString j
    .ok (if value = [] then none else some value)

def DeviceRequest.setModels (r : DeviceRequest) (body : Json) : Except Answer Plan := do
  let fastModel ← readOptionalModel body "fast_model"
  let strongModel ← readOptionalModel body "strong_model"
  let deepModel ← readOptionalModel body "deep_model"
  let updatedAt ← r.updatedAt body
  .ok { writes := [.localModels fastModel strongModel deepModel updatedAt], readBack := true,
        reply := fun d => .localModels d.config }

def providerMessage : Bytes :=
  ascii "provider must be alphanumeric and may include '-', '_' or '.'."

def DeviceRequest.setProvider (r : DeviceRequest) (body : Json) : Except Answer Plan :=
  match given body "provider", given body "enabled" with
  | some providerField, some enabledField => do
    let provider := normalizeProviderName (← getString providerField)
    if provider = [] then .error (badRequest providerMessage)
    else
      let enabled ← getBoolean enabledField
      let updatedAt ← r.updatedAt body
      let setting : ProviderSetting := ⟨provider, enabled, updatedAt⟩
      .ok { writes := [.setProvider setting], reply := fun _ => .provider setting }
  | _, _ => .error (badRequest (ascii "Missing provider or enabled."))

def removeProvider (raw : Bytes) : Except Answer Plan :=
  let provider := normalizeProviderName raw
  if provider = [] then .error (badRequest (ascii "Invalid provider."))
  else .ok { writes := [.removeProvider provider], reply := fun _ => .removed provider }

def DeviceRequest.setCredential (r : DeviceRequest) (d : Device) (body : Json) :
    Except Answer Plan :=
  match given body "provider", given body "api_key" with
  | some providerField, some apiKeyField => do
    let provider := normalizeProviderName (← getString providerField)
    if provider = [] then .error (badRequest providerMessage)
    else
      let apiKey := trimAscii (← getString apiKeyField)
      if apiKey = [] then .error (badRequest (ascii "api_key cannot be empty."))
      else
        let updatedAt ← r.updatedAt body
        let createdAt :=
          match Rows.get Credential.provider provider d.credentials with
          | some existing => existing.createdAt
          | none => updatedAt
        let credential : Credential := ⟨provider, maskApiKey apiKey, createdAt, updatedAt⟩
        .ok { reads := 1
              writes := [.setSecret ⟨provider, apiKey, maskApiKey apiKey, createdAt, updatedAt⟩,
                .setCredential credential, .setProvider ⟨provider, true, updatedAt⟩]
              reply := fun _ => .credential credential }
  | _, _ => .error (badRequest (ascii "Missing provider or api_key."))

def DeviceRequest.removeCredential (r : DeviceRequest) (raw : Bytes) : Except Answer Plan :=
  let provider := normalizeProviderName raw
  if provider = [] then .error (badRequest (ascii "Invalid provider."))
  else
    .ok { writes := [.removeSecret provider, .removeCredential provider,
            .setProvider ⟨provider, false, r.now⟩]
          reply := fun _ => .removed provider }

def settingsPath : Bytes := ascii "/ai/providers/settings"

def credentialsPath : Bytes := ascii "/ai/providers/credentials"

def slash : Bytes := ascii "/"

/-- The requests on runners; `DELETE` has no runner to show. -/
def DeviceRequest.runnerPlan (r : DeviceRequest) (d : Device) : Option (Except Answer Plan) :=
  match prepare d.runners r.client r.method r.path r.json r.uuid r.now.toInt with
  | some (.answer answer) => some (.error answer)
  | some (.write change answer) =>
    some (.ok { reads := if r.method = .post then 0 else 1, writes := [.runner change],
                refresh := true, readBack := r.method ≠ .delete, reply := fun _ => .runner answer })
  | _ => none

/-- The answer of a failed check, or the plan; none is a request that writes no settings. -/
def DeviceRequest.plan (r : DeviceRequest) (d : Device) : Option (Except Answer Plan) :=
  if r.path = ascii "/ai/local-models/config" ∧ r.method = .put then
    some (r.json.mapError badRequest >>= r.setModels)
  else if r.path = settingsPath ∧ r.method = .put then
    some (r.json.mapError badRequest >>= r.setProvider)
  else if (settingsPath ++ slash).isPrefixOf r.path ∧ r.method = .delete then
    some (removeProvider (r.path.drop (settingsPath ++ slash).length))
  else if r.path = credentialsPath ∧ r.method = .put then
    some (r.json.mapError badRequest >>= r.setCredential d)
  else if (credentialsPath ++ slash).isPrefixOf r.path ∧ r.method = .delete then
    some (r.removeCredential (r.path.drop (credentialsPath ++ slash).length))
  else r.runnerPlan d

/-- The reply, and the device as the request leaves it; `fault` is the effect that throws. -/
def Device.handle (d : Device) (r : DeviceRequest) (fault : Option Nat) : Option (Reply × Device) :=
  match r.plan d with
  | none => none
  | some (.error answer) => some (.rejected answer, d)
  | some (.ok p) =>
    let done := Effects.run Effect.act fault p.effects d
    some (if done.1 then p.reply done.2 else .threw, done.2)

inductive Label where
  | request (r : DeviceRequest) (fault : Option Nat)
  /-- The daemon is stopped and started on the rows and the file that are there. -/
  | restart

/-- The daemon, and the device as it is by the requests that were answered with success. -/
structure Served where
  device : Device
  agreed : Device

/-- What a request that was answered with success says it has done. -/
def Device.agree (d : Device) (r : DeviceRequest) (reply : Reply) : Device :=
  match reply.success, r.plan d with
  | true, some (.ok p) => d.perform p.writes
  | _, _ => d

def Served.step (s : Served) : Label → Option Served
  | .request r fault =>
    (s.device.handle r fault).map fun answer => ⟨answer.2, s.agreed.agree r answer.1⟩
  | .restart => (initializeDeviceConfig s.device).map fun device => { s with device }

/-- Nothing throws after the first row has been written. -/
def Plan.Spared (p : Plan) (fault : Option Nat) : Prop :=
  Effects.Spares fault p.effects.length ∨ ∃ k ≤ p.reads, fault = some k

def Write.Storable : Write → Prop
  | .localModels fastModel strongModel deepModel _ =>
    DeviceConfig.Storable fastModel ∧ DeviceConfig.Storable strongModel ∧
      DeviceConfig.Storable deepModel
  | _ => True

/-- No statement of the request throws after the first row it has written, and no model's name is
empty up to its first NUL. -/
def Undisturbed (d : Device) : Label → Prop
  | .request r fault =>
    ∀ p, r.plan d = some (.ok p) → p.Spared fault ∧ ∀ w ∈ p.writes, w.Storable
  | .restart => True

/-! Writes keep what settings need -/

@[simp] theorem perform_nil (d : Device) : d.perform [] = d := rfl

theorem perform_cons (d : Device) (w : Write) (writes : List Write) :
    d.perform (w :: writes) = (w.apply d).perform writes := rfl

/-- What each write keeps, all of them keep. -/
theorem perform_induction {I : Device → Prop} {writes : List Write}
    (keep : ∀ w ∈ writes, ∀ d, I d → I (w.apply d)) {d : Device} (h : I d) :
    I (d.perform writes) := by
  induction writes generalizing d with
  | nil => exact h
  | cons w writes ih =>
    rw [perform_cons]
    exact ih (fun v hv => keep v (List.mem_cons_of_mem w hv)) (keep w List.mem_cons_self d h)

theorem apply_configured (d : Device) (w : Write) : (w.apply d).configured = d.configured := by
  cases w <;> rfl

theorem perform_configured (d : Device) (writes : List Write) :
    (d.perform writes).configured = d.configured :=
  perform_induction (I := fun e => e.configured = d.configured)
    (fun w _ e he => (apply_configured e w).trans he) rfl

theorem SameSettings.apply {d e : Device} (h : SameSettings d e) (w : Write) :
    SameSettings (w.apply d) (w.apply e) := by
  cases w with
  | localModels fastModel strongModel deepModel updatedAt =>
    exact ⟨rfl, h.runners, h.providers, h.credentials, h.secrets⟩
  | runner change =>
    refine ⟨h.config, fun id => ?_, h.providers, h.credentials, h.secrets⟩
    cases change with
    | upsert runner =>
      simp only [Write.apply, Change.apply, RunnerTable.get_upsert]
      rw [h.runners]
    | remove runnerId =>
      simp only [Write.apply, Change.apply, RunnerTable.get_remove]
      rw [h.runners]
  | setProvider setting =>
    refine ⟨h.config, h.runners, fun provider => ?_, h.credentials, h.secrets⟩
    have hprovider := h.providers provider
    simp only [ProviderTable.get] at hprovider
    simp only [Write.apply, ProviderTable.get, ProviderTable.upsert, Rows.get_put, hprovider]
  | removeProvider removed =>
    refine ⟨h.config, h.runners, fun provider => ?_, h.credentials, h.secrets⟩
    have hprovider := h.providers provider
    simp only [ProviderTable.get] at hprovider
    simp only [Write.apply, ProviderTable.get, ProviderTable.remove, Rows.get_drop, hprovider]
  | setSecret secret =>
    exact ⟨h.config, h.runners, h.providers, h.credentials, by simp only [Write.apply, h.secrets]⟩
  | removeSecret account =>
    exact ⟨h.config, h.runners, h.providers, h.credentials, by simp only [Write.apply, h.secrets]⟩
  | setCredential credential =>
    exact ⟨h.config, h.runners, h.providers, by simp only [Write.apply, h.credentials], h.secrets⟩
  | removeCredential provider =>
    exact ⟨h.config, h.runners, h.providers, by simp only [Write.apply, h.credentials], h.secrets⟩

theorem SameSettings.perform {d e : Device} (h : SameSettings d e) (writes : List Write) :
    SameSettings (d.perform writes) (e.perform writes) := by
  induction writes generalizing d e with
  | nil => exact h
  | cons w writes ih => exact ih (h.apply w)

theorem Device.Kept.apply {d : Device} (h : d.Kept) {w : Write} (hw : w.Storable) :
    (w.apply d).Kept := by
  cases w with
  | localModels fastModel strongModel deepModel updatedAt =>
    intro row hrow
    exact setLocalModels_kept hw.1 hw.2.1 hw.2.2 hrow
  | _ => exact h

/-- The texts of the write are UTF-8, as far as the file shows them. -/
def Write.Encodes : Write → Prop
  | .localModels fastModel strongModel deepModel _ =>
    (∀ model ∈ [fastModel, strongModel, deepModel], model.all validUtf8 = true)
  | .runner (.upsert row) => isManual row = true → runnerEncodes row = true
  | .setProvider setting => validUtf8 setting.provider = true
  | _ => True

theorem readModel_storedModel_utf8 {model : Option Bytes} (h : model.all validUtf8 = true) :
    (readModel (storedModel model)).all validUtf8 = true := by
  match model with
  | none => rfl
  | some [] => rfl
  | some (b :: value) =>
    rw [storedModel_some (List.cons_ne_nil b value), readModel, Option.map_some, Option.all_some]
    exact validUtf8_normalize (validUtf8_cString (validUtf8_normalize h))

theorem Device.Encodes.apply {d : Device} (h : d.Encodes) {w : Write} (hw : w.Encodes) :
    (w.apply d).Encodes := by
  cases w with
  | localModels fastModel strongModel deepModel updatedAt =>
    refine ⟨fun config hconfig => ?_, h.runners, h.providers⟩
    obtain ⟨row, hrow, rfl⟩ := Option.map_eq_some_iff.mp hconfig
    simp only [Write.apply, setLocalModels] at hrow
    split at hrow
    · cases hrow
      simp only [Write.Encodes, List.forall_mem_cons] at hw
      simp only [configEncodes, readConfig, Bool.and_eq_true]
      exact ⟨⟨readModel_storedModel_utf8 hw.1, readModel_storedModel_utf8 hw.2.1⟩,
        readModel_storedModel_utf8 hw.2.2.1⟩
    · cases hrow
  | runner change =>
    refine ⟨h.config, fun runner hmem hmanual => ?_, h.providers⟩
    cases change with
    | upsert new =>
      rcases Rows.mem_put Runner.runnerId hmem with rfl | hold
      · exact hw hmanual
      · exact h.runners runner hold hmanual
    | remove runnerId => exact h.runners runner (Rows.mem_drop Runner.runnerId |>.mp hmem).1 hmanual
  | setProvider setting =>
    refine ⟨h.config, h.runners, fun other hmem => ?_⟩
    rcases Rows.mem_put ProviderSetting.provider hmem with rfl | hold
    · exact hw
    · exact h.providers other hold
  | removeProvider provider =>
    exact ⟨h.config, h.runners, fun other hmem =>
      h.providers other (Rows.mem_drop ProviderSetting.provider |>.mp hmem).1⟩
  | _ => exact ⟨h.config, h.runners, h.providers⟩

/-! What requests write -/

theorem field?_utf8 {body : Json} {key : Bytes} {s : Bytes} (h : body.encodable = true)
    (hfield : body.field? key = some (.str s)) : validUtf8 s = true := by
  match body with
  | .obj fields =>
    simp only [Json.field?, Option.map_eq_some_iff] at hfield
    obtain ⟨f, hfind, hf⟩ := hfield
    have hmem := List.mem_of_find?_eq_some hfind
    clear hfind
    rw [Json.encodable] at h
    induction fields with
    | nil => simp at hmem
    | cons g fields ih =>
      obtain ⟨k, v⟩ := g
      simp only [Json.encodableFields, Bool.and_eq_true] at h
      rcases List.mem_cons.mp hmem with rfl | hmem
      · subst hf
        exact h.1.2
      · exact ih h.2 hmem

theorem given_utf8 {body : Json} {key : String} {j : Json} {s : Bytes}
    (h : body.encodable = true) (hgiven : given body key = some j)
    (hstring : getString j = .ok s) : validUtf8 s = true := by
  match j with
  | .str t =>
    cases hstring
    unfold given at hgiven
    split at hgiven
    · cases hgiven
    · exact field?_utf8 h hgiven

theorem validUtf8_of_lt {s : Bytes} (h : ∀ b ∈ s, b.toNat < 0x80) : validUtf8 s = true := by
  induction s with
  | nil => rfl
  | cons b s ih =>
    simp only [List.forall_mem_cons] at h
    have hs := ih h.2
    simp only [validUtf8, decide_eq_true_eq, Utf8.scan, Utf8.next, Utf8.first, if_pos h.1,
      Option.bind_some] at hs ⊢
    exact hs

theorem validUtf8_normalizeProviderName (raw : Bytes) :
    validUtf8 (normalizeProviderName raw) = true := by
  simp only [normalizeProviderName]
  split
  · rename_i hall
    rw [List.all_eq_true] at hall
    refine validUtf8_of_lt fun b hb => ?_
    have hb' := hall b hb
    simp only [isAlnum, Bool.or_eq_true, Bool.and_eq_true, decide_eq_true_eq,
      UInt8.le_iff_toNat_le] at hb'
    have h57 : (57 : UInt8).toNat = 57 := rfl
    have h90 : (90 : UInt8).toNat = 90 := rfl
    have h122 : (122 : UInt8).toNat = 122 := rfl
    rcases hb' with (((hb' | rfl) | rfl) | rfl)
    · omega
    · decide
    · decide
    · decide
  · rfl

theorem readOptionalModel_utf8 {body : Json} {key : String} {model : Option Bytes}
    (h : body.encodable = true) (hread : readOptionalModel body key = .ok model) :
    model.all validUtf8 = true := by
  unfold readOptionalModel at hread
  split at hread
  · cases hread
    rfl
  · rename_i j hgiven
    obtain ⟨value, hvalue, hok⟩ := of_bind_ok hread
    cases hok
    split
    · rfl
    · exact given_utf8 h hgiven hvalue

theorem validatedRunnerBaseUrl_utf8 {body : Json} {required : Bool} {baseUrl : Option Bytes}
    (h : body.encodable = true) (hread : validatedRunnerBaseUrl body required = .ok baseUrl) :
    baseUrl.all validUtf8 = true := by
  unfold validatedRunnerBaseUrl at hread
  split at hread
  · split at hread
    · cases hread
    · cases hread
      rfl
  · rename_i j hgiven
    obtain ⟨value, hvalue, hok⟩ := of_bind_ok hread
    dsimp only at hok
    repeat' split at hok
    all_goals cases hok
    exact validUtf8_trimAscii (given_utf8 h hgiven hvalue)

theorem createRunner_encodes {uuid : Bytes} {now : Int} {body : Json} {runner : Runner}
    (hbody : body.encodable = true) (huuid : validUtf8 uuid = true)
    (h : createRunner uuid now body = .ok runner) : runnerEncodes runner = true := by
  obtain ⟨_, _, _, _, _, _, ⟨hname, hgetName⟩, ⟨hkind, hgetKind⟩, -, hbase, rfl⟩ :=
    createRunner_ok h
  simp only [runnerEncodes, Bool.and_eq_true]
  exact ⟨⟨⟨⟨validUtf8_append (by decide) huuid,
    validUtf8_trimAscii (given_utf8 hbody hname hgetName)⟩,
    validUtf8_trimAscii (given_utf8 hbody hkind hgetKind)⟩,
    validatedRunnerBaseUrl_utf8 hbody hbase⟩, by decide⟩

theorem runnerEncodes_edit {existing : Runner} {name : Bytes} {enabled : Bool}
    {baseUrl : Option Bytes} {updatedAt : Int} (h : runnerEncodes existing = true)
    (hname : validUtf8 name = true) (hbase : baseUrl.all validUtf8 = true) :
    runnerEncodes { existing with name, enabled, baseUrl, updatedAt } = true := by
  simp only [runnerEncodes, Bool.and_eq_true] at h ⊢
  exact ⟨⟨⟨⟨h.1.1.1.1, hname⟩, h.1.1.2⟩, hbase⟩, h.2⟩

theorem patchRunner_encodes {existing : Runner} {now : Int} {body : Json} {runner : Runner}
    (hbody : body.encodable = true)
    (hexisting : isManual existing = true → runnerEncodes existing = true)
    (h : patchRunner existing now body = .ok runner) (hmanual : isManual runner = true) :
    runnerEncodes runner = true := by
  obtain ⟨name, enabled, baseUrl, hname, hbase, rfl⟩ := patchRunner_ok h
  have hall := hexisting hmanual
  have hold := hall
  simp only [runnerEncodes, Bool.and_eq_true] at hold
  refine runnerEncodes_edit hall ?_ ?_
  · rcases hname with rfl | ⟨field, value, hfield, hvalue, rfl⟩
    · exact hold.1.1.1.2
    · exact validUtf8_trimAscii (given_utf8 hbody hfield hvalue)
  · rcases hbase with rfl | hbase
    · exact hold.1.2
    · exact validatedRunnerBaseUrl_utf8 hbody hbase

theorem prepare_encodes {d : Device} (h : d.Encodes) {client : Bytes → Option Client}
    {method : Method} {path : Bytes} {body : Except Bytes Json} {uuid : Bytes} {now : Int}
    {change : Change} {answer : Answer}
    (hbody : ∀ json, body = .ok json → json.encodable = true) (huuid : validUtf8 uuid = true)
    (hprepare : prepare d.runners client method path body uuid now = some (.write change answer)) :
    (Write.runner change).Encodes := by
  have hparsed : ∀ json, body.mapError badRequest = .ok json → json.encodable = true := by
    intro json hjson
    cases body with
    | error what => cases hjson
    | ok parsed =>
      cases hjson
      exact hbody _ rfl
  match change with
  | .remove runnerId => trivial
  | .upsert runner =>
    intro hmanual
    unfold prepare at hprepare
    split at hprepare
    · obtain ⟨json, hjson, hcreate⟩ := of_bind_ok (ofWrite_upsert (Option.some.inj hprepare))
      exact createRunner_encodes (hparsed json hjson) huuid hcreate
    · dsimp only at hprepare
      repeat' split at hprepare
      all_goals try cases hprepare
      rename_i existing hget
      obtain ⟨json, hjson, hpatch⟩ := of_bind_ok (ofWrite_upsert (Option.some.inj hprepare))
      exact patchRunner_encodes (hparsed json hjson)
        (h.runners existing (Rows.mem_of_get Runner.runnerId hget)) hpatch hmanual

/-- What every plan satisfies. -/
structure Plan.Sound (p : Plan) : Prop where
  encodes : ∀ w ∈ p.writes, w.Encodes
  success : ∀ d, (p.reply d).success = true

theorem DeviceRequest.json_utf8 {r : DeviceRequest} {json : Json} (h : r.json = .ok json) :
    json.encodable = true := by
  unfold DeviceRequest.json at h
  cases hbody : r.body with
  | error what =>
    rw [hbody] at h
    cases h
  | ok body =>
    rw [hbody] at h
    cases h
    exact body.utf8

theorem DeviceRequest.parsed_utf8 {r : DeviceRequest} {json : Json}
    (h : r.json.mapError badRequest = .ok json) : json.encodable = true := by
  cases hjson : r.json with
  | error what =>
    rw [hjson] at h
    cases h
  | ok parsed =>
    rw [hjson] at h
    cases h
    exact r.json_utf8 hjson

theorem setModels_sound {r : DeviceRequest} {body : Json} {p : Plan}
    (hbody : body.encodable = true) (h : r.setModels body = .ok p) : p.Sound := by
  unfold DeviceRequest.setModels at h
  obtain ⟨fastModel, hfast, h⟩ := of_bind_ok h
  obtain ⟨strongModel, hstrong, h⟩ := of_bind_ok h
  obtain ⟨deepModel, hdeep, h⟩ := of_bind_ok h
  obtain ⟨updatedAt, _, h⟩ := of_bind_ok h
  cases h
  refine ⟨?_, fun _ => rfl⟩
  simp only [List.forall_mem_cons, Write.Encodes]
  exact ⟨⟨readOptionalModel_utf8 hbody hfast, readOptionalModel_utf8 hbody hstrong,
    readOptionalModel_utf8 hbody hdeep, by simp⟩, by simp⟩

theorem setProvider_sound {r : DeviceRequest} {body : Json} {p : Plan}
    (h : r.setProvider body = .ok p) : p.Sound := by
  unfold DeviceRequest.setProvider at h
  split at h
  · obtain ⟨raw, _, h⟩ := of_bind_ok h
    dsimp only at h
    split at h
    · cases h
    obtain ⟨enabled, _, h⟩ := of_bind_ok h
    obtain ⟨updatedAt, _, h⟩ := of_bind_ok h
    cases h
    refine ⟨?_, fun _ => rfl⟩
    simp only [List.forall_mem_cons, Write.Encodes]
    exact ⟨validUtf8_normalizeProviderName raw, by simp⟩
  · cases h

theorem removeProvider_sound {raw : Bytes} {p : Plan} (h : removeProvider raw = .ok p) :
    p.Sound := by
  unfold DeviceConfig.removeProvider at h
  dsimp only at h
  split at h
  · cases h
  · cases h
    exact ⟨by simp [Write.Encodes], fun _ => rfl⟩

theorem setCredential_sound {r : DeviceRequest} {d : Device} {body : Json} {p : Plan}
    (h : r.setCredential d body = .ok p) : p.Sound := by
  unfold DeviceRequest.setCredential at h
  split at h
  · obtain ⟨raw, _, h⟩ := of_bind_ok h
    dsimp only at h
    split at h
    · cases h
    obtain ⟨apiKey, _, h⟩ := of_bind_ok h
    split at h
    · cases h
    obtain ⟨updatedAt, _, h⟩ := of_bind_ok h
    cases h
    refine ⟨?_, fun _ => rfl⟩
    simp only [List.forall_mem_cons, Write.Encodes]
    exact ⟨trivial, trivial, validUtf8_normalizeProviderName raw, by simp⟩
  · cases h

theorem removeCredential_sound {r : DeviceRequest} {raw : Bytes} {p : Plan}
    (h : r.removeCredential raw = .ok p) : p.Sound := by
  unfold DeviceRequest.removeCredential at h
  dsimp only at h
  split at h
  · cases h
  · cases h
    refine ⟨?_, fun _ => rfl⟩
    simp only [List.forall_mem_cons, Write.Encodes]
    exact ⟨trivial, trivial, validUtf8_normalizeProviderName raw, by simp⟩

theorem runnerPlan_sound {r : DeviceRequest} {d : Device} {p : Plan} (hd : d.Encodes)
    (h : r.runnerPlan d = some (.ok p)) : p.Sound := by
  unfold DeviceRequest.runnerPlan at h
  split at h
  · cases h
  · rename_i change answer hprepare
    cases h
    refine ⟨?_, fun _ => rfl⟩
    simp only [List.forall_mem_cons]
    exact ⟨prepare_encodes hd (fun json hjson => r.json_utf8 hjson) r.uuidUtf8 hprepare, by simp⟩
  · cases h

theorem plan_sound {r : DeviceRequest} {d : Device} {p : Plan} (hd : d.Encodes)
    (h : r.plan d = some (.ok p)) : p.Sound := by
  unfold DeviceRequest.plan at h
  split at h
  · obtain ⟨json, hjson, hp⟩ := of_bind_ok (Option.some.inj h)
    exact setModels_sound (r.parsed_utf8 hjson) hp
  split at h
  · obtain ⟨json, _, hp⟩ := of_bind_ok (Option.some.inj h)
    exact setProvider_sound hp
  split at h
  · exact removeProvider_sound (Option.some.inj h)
  split at h
  · obtain ⟨json, _, hp⟩ := of_bind_ok (Option.some.inj h)
    exact setCredential_sound hp
  split at h
  · exact removeCredential_sound (Option.some.inj h)
  · exact runnerPlan_sound hd h

/-- A plan is made of the settings that can be read. -/
theorem plan_congr {d e : Device} (h : SameSettings d e) (r : DeviceRequest) :
    r.plan d = r.plan e := by
  have hcredential : r.setCredential d = r.setCredential e := by
    funext body
    simp only [DeviceRequest.setCredential, h.credentials]
  have hrunner : r.runnerPlan d = r.runnerPlan e := by
    simp only [DeviceRequest.runnerPlan, prepare_congr h.runners]
  simp only [DeviceRequest.plan, hcredential, hrunner]

/-! One request -/

theorem foldlM_reads (d : Device) (n : Nat) :
    (List.replicate n Effect.read).foldlM Effect.act d = some d :=
  Effects.foldlM_still fun e he => by
    rw [List.eq_of_mem_replicate he]
    rfl

theorem foldlM_writes (d : Device) (writes : List Write) :
    (writes.map Effect.write).foldlM Effect.act d = some (d.perform writes) := by
  induction writes generalizing d with
  | nil => rfl
  | cons w writes ih => exact ih (w.apply d)

theorem act_after {p : Plan} {e : Effect} (h : e ∈ p.after) (d : Device) :
    Effect.act d e = some d := by
  unfold Plan.after at h
  rcases List.mem_cons.mp h with rfl | h
  · rfl
  · rcases List.mem_append.mp h with h | h
    · split at h
      · rw [List.mem_singleton.mp h]
        rfl
      · cases h
    · split at h
      · rw [List.mem_singleton.mp h]
        rfl
      · cases h

theorem foldlM_after (d : Device) (p : Plan) : p.after.foldlM Effect.act d = some d :=
  Effects.foldlM_still fun _ he => act_after he d

/-- A request that nothing disturbs writes its rows and then a snapshot of all rows. -/
theorem foldlM_effects {d : Device} (hconfigured : d.configured = true) {p : Plan}
    (hencodes : (d.perform p.writes).Encodes) :
    p.effects.foldlM Effect.act d =
      some { d.perform p.writes with file := some (snapshot (d.perform p.writes)) } := by
  have hpersist : persistDeviceConfig (d.perform p.writes) =
      some { d.perform p.writes with file := some (snapshot (d.perform p.writes)) } := by
    rw [persistDeviceConfig, perform_configured, if_pos hconfigured, writeSnapshot,
      if_pos ((encodable_snapshot _).mpr hencodes)]
  rw [Plan.effects, List.foldlM_append, foldlM_reads, Option.bind_eq_bind, Option.bind_some,
    List.foldlM_append, foldlM_writes, Option.bind_eq_bind, Option.bind_some, List.foldlM_cons]
  show (persistDeviceConfig (d.perform p.writes)).bind _ = _
  rw [hpersist, Option.bind_some, foldlM_after]

theorem run_effects {d : Device} (hconfigured : d.configured = true) {p : Plan}
    (hencodes : (d.perform p.writes).Encodes) {fault : Option Nat} (hspared : p.Spared fault) :
    Effects.run Effect.act fault p.effects d = (false, d) ∨
      Effects.run Effect.act fault p.effects d =
        (true, { d.perform p.writes with file := some (snapshot (d.perform p.writes)) }) := by
  rcases hspared with hspares | ⟨k, hk, rfl⟩
  · exact .inr (Effects.run_completes hspares (foldlM_effects hconfigured hencodes))
  · left
    have hlength : k < p.effects.length := by
      simp only [Plan.effects, List.length_append, List.length_replicate, List.length_cons]
      omega
    refine Effects.run_unmoved hlength fun e he => ?_
    rw [Plan.effects, List.take_append_of_le_length (by simpa using hk)] at he
    rw [List.eq_of_mem_replicate (List.mem_of_mem_take he)]
    rfl

/-- The file is a snapshot of the rows, and the rows are those of the requests that were answered
with success. -/
structure Serves (s : Served) : Prop where
  configured : s.device.configured = true
  file : s.device.file = some (snapshot s.device)
  encodes : s.device.Encodes
  kept : s.device.Kept
  same : SameSettings s.device s.agreed

theorem SameSettings.file {d e : Device} (h : SameSettings d e) (file : Option Json) :
    SameSettings { d with file } e := ⟨h.config, h.runners, h.providers, h.credentials, h.secrets⟩

theorem initializeDeviceConfig_file {d : Device} (h : d.configured = true) {body : Json}
    (hfile : d.file = some body) : initializeDeviceConfig d = (restore body d).toOption := by
  cases d
  cases h
  cases hfile
  rfl

theorem Serves.restart {s : Served} (h : Serves s) :
    ∃ device, initializeDeviceConfig s.device = some device ∧ Serves { s with device } := by
  obtain ⟨device, hrestore, hsame, hkept, hsnapshot, hfile, hconfigured⟩ := restore_snapshot h.kept
  refine ⟨device, ?_, hconfigured.trans h.configured, ?_, ?_, hkept, hsame.trans h.same⟩
  · rw [initializeDeviceConfig_file h.configured h.file, hrestore]
    rfl
  · rw [hfile, hsnapshot, h.file]
  · rw [← encodable_snapshot, hsnapshot, encodable_snapshot]
    exact h.encodes

/-- An undisturbed request either changes nothing and is answered with an error, or does what its
plan says. -/
theorem Serves.handle {s : Served} (h : Serves s) {r : DeviceRequest} {fault : Option Nat}
    (hok : Undisturbed s.device (.request r fault)) {reply : Reply} {device : Device}
    (hhandle : s.device.handle r fault = some (reply, device)) :
    Serves ⟨device, s.agreed.agree r reply⟩ ∧ (reply.success = false → device = s.device) := by
  unfold Device.handle at hhandle
  have hagreed := plan_congr h.same r
  split at hhandle
  · cases hhandle
  · cases hhandle
    exact ⟨h, fun _ => rfl⟩
  · rename_i p hplan
    obtain ⟨hspared, hstorable⟩ := hok p hplan
    have hsound := plan_sound h.encodes hplan
    have hencodes : (s.device.perform p.writes).Encodes :=
      perform_induction (I := Device.Encodes) (fun w hw _ he => he.apply (hsound.encodes w hw))
        h.encodes
    have hkept : (s.device.perform p.writes).Kept :=
      perform_induction (I := Device.Kept) (fun w hw _ he => he.apply (hstorable w hw)) h.kept
    rcases run_effects h.configured hencodes hspared with hrun | hrun
    · simp only [hrun, Option.some.injEq, Prod.mk.injEq] at hhandle
      obtain ⟨rfl, rfl⟩ := hhandle
      exact ⟨h, fun _ => rfl⟩
    · simp only [hrun, Option.some.injEq, Prod.mk.injEq, if_true] at hhandle
      obtain ⟨rfl, rfl⟩ := hhandle
      have hsuccess := hsound.success
        { s.device.perform p.writes with file := some (snapshot (s.device.perform p.writes)) }
      refine ⟨⟨(perform_configured _ _).trans h.configured, rfl, ?_, hkept, ?_⟩, fun hno => ?_⟩
      · exact ⟨hencodes.config, hencodes.runners, hencodes.providers⟩
      · simp only [Device.agree, hsuccess, ← hagreed, hplan]
        exact (h.same.perform p.writes).file _
      · rw [hsuccess] at hno
        cases hno

theorem Serves.step {s t : Served} {l : Label} (h : Serves s) (hok : Undisturbed s.device l)
    (hstep : s.step l = some t) : Serves t := by
  cases l with
  | request r fault =>
    obtain ⟨⟨reply, device⟩, hhandle, rfl⟩ := Option.map_eq_some_iff.mp hstep
    exact (h.handle hok hhandle).1
  | restart =>
    obtain ⟨device, hdevice, rfl⟩ := Option.map_eq_some_iff.mp hstep
    obtain ⟨restored, hrestored, hserves⟩ := h.restart
    rw [hrestored] at hdevice
    cases hdevice
    exact hserves

/-- A first start, on rows without empty texts. -/
theorem serves_of_first {d device : Device} (hnew : d.file = none) (hkept : d.Kept)
    (hstart : initializeDeviceConfig d = some device) : Serves ⟨device, device⟩ := by
  simp only [initializeDeviceConfig, hnew, writeSnapshot] at hstart
  split at hstart
  · rename_i hencodable
    cases hstart
    have hencodes := (encodable_snapshot _).mp hencodable
    exact ⟨rfl, rfl, ⟨hencodes.config, hencodes.runners, hencodes.providers⟩, hkept, .refl _⟩
  · cases hstart

def emptyDevice : Device where
  localModels := none
  runners := ⟨[], List.nodup_nil⟩
  providers := ⟨[], List.nodup_nil⟩

def startedDevice : Device :=
  { emptyDevice with configured := true, file := some (snapshot emptyDevice) }

theorem initialize_emptyDevice : initializeDeviceConfig emptyDevice = some startedDevice := by
  have hencodes : emptyDevice.Encodes :=
    ⟨fun _ h => (by cases h), fun _ h => (by cases h), fun _ h => (by cases h)⟩
  have hencodable := (encodable_snapshot emptyDevice).mpr hencodes
  simp only [initializeDeviceConfig, emptyDevice, writeSnapshot]
  exact if_pos hencodable

/-- PUT /ai/providers/settings for one provider. -/
def enableProvider (provider : String) (h : validUtf8 (ascii provider) = true) :
    DeviceRequest where
  method := .put
  path := settingsPath
  body := .ok ⟨.obj [(ascii "enabled", .bool true), (ascii "provider", .str (ascii provider))], by
    have hkeys : validUtf8 (ascii "enabled") = true ∧ validUtf8 (ascii "provider") = true := by
      decide
    simp [Json.encodable, Json.encodableFields, h, hkeys]⟩
  uuid := []
  uuidUtf8 := by decide
  now := 7

def first : DeviceRequest := enableProvider "mistral" (by decide)

def second : DeviceRequest := enableProvider "cohere" (by decide)

def Device.enables (d : Device) (provider : String) : Bool :=
  (d.providers.get (ascii provider)).isSome

theorem setProvider_storable {r : DeviceRequest} {body : Json} {p : Plan}
    (h : r.setProvider body = .ok p) : ∀ w ∈ p.writes, w.Storable := by
  unfold DeviceRequest.setProvider at h
  split at h
  · obtain ⟨raw, _, h⟩ := of_bind_ok h
    dsimp only at h
    split at h
    · cases h
    obtain ⟨enabled, _, h⟩ := of_bind_ok h
    obtain ⟨updatedAt, _, h⟩ := of_bind_ok h
    cases h
    simp [Write.Storable]
  · cases h

theorem enableProvider_undisturbed {provider : String} (h : validUtf8 (ascii provider) = true)
    (d : Device) {fault : Option Nat} (hfault : fault = none ∨ fault = some 0) :
    Undisturbed d (.request (enableProvider provider h) fault) := by
  intro p hplan
  constructor
  · rcases hfault with rfl | rfl
    · exact .inl fun k hk => by cases hk
    · exact .inr ⟨0, Nat.zero_le _, rfl⟩
  · have hpath : ¬ ((enableProvider provider h).path = ascii "/ai/local-models/config" ∧
        (enableProvider provider h).method = .put) := by
      have hne : settingsPath ≠ ascii "/ai/local-models/config" := by decide
      exact fun hboth => hne hboth.1
    have hput : (enableProvider provider h).path = settingsPath ∧
        (enableProvider provider h).method = .put := ⟨rfl, rfl⟩
    rw [DeviceRequest.plan, if_neg hpath, if_pos hput] at hplan
    obtain ⟨json, _, hset⟩ := of_bind_ok (Option.some.inj hplan)
    exact setProvider_storable hset

/-- One setting is stored, another is not, and the daemon is started again. -/
def settingLabels : List Label := [.request first none, .request second (some 0), .restart]

end DeviceConfig

end HolderDaemon
