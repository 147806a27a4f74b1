import HolderDaemon.RunnerRegistry

/-!
Device settings (`platform/DeviceConfigStore.cpp`, `ai/AiLocalModelConfigRepo.cpp`,
`llm/RunnerModelRef.cpp`): the rows that a daemon keeps of them, the file that holds a snapshot of
the rows, and the start that reads the file back.
-/

set_option autoImplicit false

open Bytes

namespace HolderDaemon

namespace DeviceConfig

open Runners

/-! References to models -/

def kSeparator : Bytes := ascii "::"

/-- `find(needle)`. -/
def find (needle : Bytes) : Bytes → Option Nat
  | [] => if needle = [] then some 0 else none
  | b :: s => if needle.isPrefixOf (b :: s) then some 0 else (find needle s).map Nat.succ

def parseRunnerModelRef (ref : Bytes) : Option (Bytes × Bytes) :=
  match find kSeparator ref with
  | none => none
  | some pos =>
    if pos = 0 ∨ ref.length ≤ pos + 2 then none else some (ref.take pos, ref.drop (pos + 2))

def makeRunnerModelRef (runnerId modelName : Bytes) : Bytes := runnerId ++ kSeparator ++ modelName

def normalizeLocalRunnerModelRef (ref : Bytes) : Bytes :=
  if ref = [] then ref
  else if (parseRunnerModelRef ref).isSome then ref
  else makeRunnerModelRef kAutoLocalRunnerId ref

theorem parse_makeRunnerModelRef {ref : Bytes} (h : ref ≠ []) :
    (parseRunnerModelRef (makeRunnerModelRef kAutoLocalRunnerId ref)).isSome = true := by
  have hfind : find kSeparator (makeRunnerModelRef kAutoLocalRunnerId ref) = some 10 := rfl
  have hlength : (makeRunnerModelRef kAutoLocalRunnerId ref).length = 12 + ref.length := by
    rw [makeRunnerModelRef, List.length_append]
    rfl
  have hpos := List.length_pos_iff.mpr h
  rw [parseRunnerModelRef, hfind]
  dsimp only
  rw [if_neg (by omega)]
  rfl

theorem normalize_normalize (ref : Bytes) :
    normalizeLocalRunnerModelRef (normalizeLocalRunnerModelRef ref) =
      normalizeLocalRunnerModelRef ref := by
  by_cases hnil : ref = []
  · simp [normalizeLocalRunnerModelRef, hnil]
  · by_cases hparse : (parseRunnerModelRef ref).isSome = true
    · simp [normalizeLocalRunnerModelRef, hnil, hparse]
    · have hmake : normalizeLocalRunnerModelRef ref =
          makeRunnerModelRef kAutoLocalRunnerId ref := by
        simp [normalizeLocalRunnerModelRef, hnil, hparse]
      rw [hmake, normalizeLocalRunnerModelRef, if_pos (parse_makeRunnerModelRef hnil), ite_self]

theorem normalize_ne_nil {ref : Bytes} (h : ref ≠ []) : normalizeLocalRunnerModelRef ref ≠ [] := by
  unfold normalizeLocalRunnerModelRef
  rw [if_neg h]
  split
  · exact h
  · simp [makeRunnerModelRef, kAutoLocalRunnerId, show ascii "auto-local" ≠ [] by decide]

theorem normalize_noNul {ref : Bytes} (h : (0 : UInt8) ∉ ref) :
    (0 : UInt8) ∉ normalizeLocalRunnerModelRef ref := by
  unfold normalizeLocalRunnerModelRef
  split
  · exact h
  · split
    · exact h
    · simp only [makeRunnerModelRef, List.mem_append, not_or]
      exact ⟨⟨by decide, by decide⟩, h⟩

theorem validUtf8_normalize {ref : Bytes} (h : validUtf8 ref = true) :
    validUtf8 (normalizeLocalRunnerModelRef ref) = true := by
  unfold normalizeLocalRunnerModelRef
  split
  · exact h
  · split
    · exact h
    · exact validUtf8_append (by decide) h

/-! The configuration of local models -/

structure AiLocalModelConfig where
  fastModel : Option Bytes
  strongModel : Option Bytes
  deepModel : Option Bytes
  updatedAt : Int64
  deriving DecidableEq

/-- The row of the configuration. -/
structure LocalModelRow where
  fastModel : Option Text
  strongModel : Option Text
  deepModel : Option Text
  updatedAt : Int64
  deriving DecidableEq

def bindOptionalText : Option Bytes → Option Text
  | none => none
  | some value => if value = [] then none else some (cString value)

def readModel (column : Option Text) : Option Bytes :=
  column.map fun text => normalizeLocalRunnerModelRef text.val

def readConfig (row : LocalModelRow) : AiLocalModelConfig where
  fastModel := readModel row.fastModel
  strongModel := readModel row.strongModel
  deepModel := readModel row.deepModel
  updatedAt := row.updatedAt

def hasAnyModel (fastModel strongModel deepModel : Option Bytes) : Bool :=
  [fastModel, strongModel, deepModel].any fun model => model.any fun value => value ≠ []

def storedModel (model : Option Bytes) : Option Text :=
  bindOptionalText (model.map normalizeLocalRunnerModelRef)

/-- The row that `AiLocalModelConfigRepo::set` leaves. -/
def setLocalModels (fastModel strongModel deepModel : Option Bytes) (updatedAt : Int64) :
    Option LocalModelRow :=
  if hasAnyModel fastModel strongModel deepModel then
    some ⟨storedModel fastModel, storedModel strongModel, storedModel deepModel, updatedAt⟩
  else none

/-- SQLite is not given an empty text for the model. -/
def Storable (model : Option Bytes) : Prop :=
  ∀ value, model = some value → value ≠ [] →
    (cString (normalizeLocalRunnerModelRef value)).val ≠ []

/-- A row with a model, and without empty texts. -/
structure LocalModelRow.Kept (row : LocalModelRow) : Prop where
  any : row.fastModel.isSome ∨ row.strongModel.isSome ∨ row.deepModel.isSome
  texts : ∀ column ∈ [row.fastModel, row.strongModel, row.deepModel], ∀ text, column = some text →
    text.val ≠ []

theorem storedModel_some {value : Bytes} (h : value ≠ []) :
    storedModel (some value) = some (cString (normalizeLocalRunnerModelRef value)) := by
  simp [storedModel, bindOptionalText, normalize_ne_nil h]

theorem storedModel_kept {model : Option Bytes} (h : Storable model) {text : Text}
    (hstored : storedModel model = some text) : text.val ≠ [] := by
  match model with
  | none => cases hstored
  | some [] => cases hstored
  | some (b :: value) =>
    rw [storedModel_some (List.cons_ne_nil b value), Option.some.injEq] at hstored
    exact hstored ▸ h _ rfl (List.cons_ne_nil b value)

/-- What is read of a column is stored so that it is read again. -/
theorem readModel_storedModel {column : Option Text}
    (h : ∀ text, column = some text → text.val ≠ []) :
    readModel (storedModel (readModel column)) = readModel column := by
  cases column with
  | none => rfl
  | some text =>
    have hne := normalize_ne_nil (h text rfl)
    have hread : readModel (some text) = some (normalizeLocalRunnerModelRef text.val) := rfl
    rw [hread, storedModel_some hne, normalize_normalize, readModel, Option.map_some,
      val_cString (normalize_noNul text.noNul), normalize_normalize]

theorem storedModel_readModel_kept {column : Option Text}
    (h : ∀ text, column = some text → text.val ≠ []) :
    (storedModel (readModel column)).isSome = column.isSome ∧
      ∀ text, storedModel (readModel column) = some text → text.val ≠ [] := by
  cases column with
  | none => exact ⟨rfl, fun _ hnone => by cases hnone⟩
  | some text =>
    have hne := normalize_ne_nil (h text rfl)
    have hread : readModel (some text) = some (normalizeLocalRunnerModelRef text.val) := rfl
    rw [hread, storedModel_some hne]
    refine ⟨rfl, fun other hother => ?_⟩
    cases hother
    rw [normalize_normalize, val_cString (normalize_noNul text.noNul)]
    exact hne

theorem hasAnyModel_readConfig {row : LocalModelRow} (h : row.Kept) :
    hasAnyModel (readModel row.fastModel) (readModel row.strongModel)
      (readModel row.deepModel) = true := by
  have hread : ∀ column ∈ [row.fastModel, row.strongModel, row.deepModel],
      column.isSome = true → (readModel column).any (fun value => decide (value ≠ [])) = true := by
    intro column hmem hsome
    obtain ⟨text, rfl⟩ := Option.isSome_iff_exists.mp hsome
    simpa [readModel] using normalize_ne_nil (h.texts _ hmem text rfl)
  simp only [hasAnyModel, List.any_cons, List.any_nil, Bool.or_false, Bool.or_eq_true]
  rcases h.any with hfast | hstrong | hdeep
  · exact .inl (hread _ (by simp) hfast)
  · exact .inr (.inl (hread _ (by simp) hstrong))
  · exact .inr (.inr (hread _ (by simp) hdeep))

/-- A configuration that is written again is the same configuration. -/
theorem setLocalModels_readConfig {row : LocalModelRow} (h : row.Kept) :
    ∃ again, setLocalModels (readModel row.fastModel) (readModel row.strongModel)
        (readModel row.deepModel) row.updatedAt = some again ∧
      readConfig again = readConfig row ∧ again.Kept := by
  have htexts := h.texts
  simp only [List.forall_mem_cons] at htexts
  obtain ⟨hfast, hstrong, hdeep, _⟩ := htexts
  refine ⟨_, by rw [setLocalModels, if_pos (hasAnyModel_readConfig h)], ?_, ⟨?_, ?_⟩⟩
  · simp only [readConfig, readModel_storedModel hfast, readModel_storedModel hstrong,
      readModel_storedModel hdeep]
  · dsimp only
    rw [(storedModel_readModel_kept hfast).1, (storedModel_readModel_kept hstrong).1,
      (storedModel_readModel_kept hdeep).1]
    exact h.any
  · simp only [List.forall_mem_cons]
    exact ⟨(storedModel_readModel_kept hfast).2, (storedModel_readModel_kept hstrong).2,
      (storedModel_readModel_kept hdeep).2, by simp⟩

theorem setLocalModels_kept {fastModel strongModel deepModel : Option Bytes} {updatedAt : Int64}
    (hfast : Storable fastModel) (hstrong : Storable strongModel) (hdeep : Storable deepModel)
    {row : LocalModelRow}
    (h : setLocalModels fastModel strongModel deepModel updatedAt = some row) : row.Kept := by
  unfold setLocalModels at h
  split at h
  · rename_i hany
    cases h
    refine ⟨?_, ?_⟩
    · have hsome : ∀ model : Option Bytes, model.any (fun value => decide (value ≠ [])) = true →
          (storedModel model).isSome = true := by
        intro model hmodel
        obtain ⟨value, rfl, hvalue⟩ := (Option.any_eq_true _ _).mp hmodel
        rw [storedModel_some (of_decide_eq_true hvalue)]
        rfl
      simp only [hasAnyModel, List.any_cons, List.any_nil, Bool.or_false, Bool.or_eq_true] at hany
      exact hany.imp (hsome _) fun hrest => hrest.imp (hsome _) (hsome _)
    · simp only [List.forall_mem_cons]
      exact ⟨fun _ => storedModel_kept hfast, fun _ => storedModel_kept hstrong,
        fun _ => storedModel_kept hdeep, by simp⟩
  · cases h

/-! The rows and the file -/

structure ProviderSetting where
  provider : Bytes
  enabled : Bool
  updatedAt : Int64
  deriving DecidableEq

structure ProviderTable where
  rows : List ProviderSetting
  unique : (rows.map ProviderSetting.provider).Nodup

namespace ProviderTable

def get (t : ProviderTable) (provider : Bytes) : Option ProviderSetting :=
  Rows.get ProviderSetting.provider provider t.rows

def upsert (t : ProviderTable) (setting : ProviderSetting) : ProviderTable :=
  ⟨Rows.put ProviderSetting.provider setting t.rows,
    Rows.nodup_put ProviderSetting.provider t.unique⟩

def remove (t : ProviderTable) (provider : Bytes) : ProviderTable :=
  ⟨Rows.drop ProviderSetting.provider provider t.rows,
    Rows.nodup_drop ProviderSetting.provider t.unique⟩

end ProviderTable

structure Credential where
  provider : Bytes
  apiKeyPreview : Bytes
  createdAt : Int64
  updatedAt : Int64
  deriving DecidableEq

/-- An entry of the secret store under `kSecretService`. -/
structure Secret where
  account : Bytes
  value : Bytes
  label : Bytes
  createdAt : Int64
  updatedAt : Int64
  deriving DecidableEq

/-- The rows of a daemon, its secrets, and the configuration file once there is one. -/
structure Device where
  localModels : Option LocalModelRow
  runners : RunnerTable
  providers : ProviderTable
  credentials : List Credential := []
  secrets : List Secret := []
  configured : Bool := false
  file : Option Json := none

def Device.config (d : Device) : Option AiLocalModelConfig := d.localModels.map readConfig

def isManual (runner : Runner) : Bool := runner.source ≠ ascii "auto_local"

def optionalStringJson : Option Bytes → Json
  | some value => .str value
  | none => .null

def configJson (config : AiLocalModelConfig) : Json :=
  .object [
    (ascii "fast_model", optionalStringJson config.fastModel),
    (ascii "strong_model", optionalStringJson config.strongModel),
    (ascii "deep_model", optionalStringJson config.deepModel),
    (ascii "updated_at", .int config.updatedAt.toInt)]

def runnerJson (runner : Runner) : Json :=
  .object [
    (ascii "runner_id", .str runner.runnerId),
    (ascii "name", .str runner.name),
    (ascii "kind", .str runner.kind),
    (ascii "base_url", optionalStringJson runner.baseUrl),
    (ascii "source", .str runner.source),
    (ascii "enabled", .bool runner.enabled),
    (ascii "created_at", .int runner.createdAt),
    (ascii "updated_at", .int runner.updatedAt)]

def settingJson (setting : ProviderSetting) : Json :=
  .object [
    (ascii "provider", .str setting.provider),
    (ascii "enabled", .bool setting.enabled),
    (ascii "updated_at", .int setting.updatedAt.toInt)]

def snapshot (d : Device) : Json :=
  .object [
    (ascii "version", .int 1),
    (ascii "local_model", (d.config.map configJson).getD .null),
    (ascii "manual_runners", .arr ((d.runners.rows.filter isManual).map runnerJson)),
    (ascii "provider_settings", .arr (d.providers.rows.map settingJson))]

/-- `write_snapshot` up to its rename; the encoder takes UTF-8 only. -/
def writeSnapshot (d : Device) : Option Device :=
  if (snapshot d).encodable then some { d with file := some (snapshot d) } else none

def persistDeviceConfig (d : Device) : Option Device :=
  if d.configured then writeSnapshot d else some d

/-! Restoring -/

def optionalString (body : Json) (key : String) : Except Bytes (Option Bytes) :=
  match given body key with
  | none => .ok none
  | some j => j.getString.map some

/-- `get<long long>()` of an integer, at the type of a runner's times. -/
def getLong : Json → Except Bytes Int
  | .int i => .ok i
  | j => .error (j.typeError "number")

/-- What a loop over the value goes through. -/
def elements : Json → List Json
  | .null => []
  | .arr items => items
  | .obj fields => fields.map Prod.snd
  | j => [j]

def restoreVersion (body : Json) : Except Bytes Unit := do
  let version ←
    match body.field? (ascii "version") with
    | none => .ok 0
    | some j => j.getInt64
  if version.toInt32 ≠ 1 then .error (ascii "unsupported device config version") else .ok ()

def restoreLocalModels (body : Json) : Except Bytes (Option LocalModelRow) :=
  match given body "local_model" with
  | none => .ok none
  | some value => do
    let fastModel ← optionalString value "fast_model"
    let strongModel ← optionalString value "strong_model"
    let deepModel ← optionalString value "deep_model"
    let updatedAt ← (← value.atKey "updated_at").getInt64
    .ok (setLocalModels fastModel strongModel deepModel updatedAt)

def runnerOfJson (value : Json) : Except Bytes Runner := do
  let runnerId ← (← value.atKey "runner_id").getString
  let name ← (← value.atKey "name").getString
  let kind ← (← value.atKey "kind").getString
  let baseUrl ← optionalString value "base_url"
  let source ← (← value.atKey "source").getString
  let enabled ← (← value.atKey "enabled").getBoolean
  let createdAt ← getLong (← value.atKey "created_at")
  let updatedAt ← getLong (← value.atKey "updated_at")
  .ok { runnerId, name, kind, baseUrl, source, enabled, createdAt, updatedAt }

def settingOfJson (value : Json) : Except Bytes ProviderSetting := do
  let provider ← (← value.atKey "provider").getString
  let enabled ← (← value.atKey "enabled").getBoolean
  let updatedAt ← (← value.atKey "updated_at").getInt64
  .ok { provider, enabled, updatedAt }

def removeManual (t : RunnerTable) : RunnerTable :=
  t.rows.foldl (fun t existing => if isManual existing then t.remove existing.runnerId else t) t

def restoreRunners (body : Json) (t : RunnerTable) : Except Bytes RunnerTable :=
  (elements (body.value (ascii "manual_runners") (.arr []))).foldlM
    (fun t value => do .ok (t.upsert (← runnerOfJson value))) (removeManual t)

def removeSettings (t : ProviderTable) : ProviderTable :=
  t.rows.foldl (fun t existing => t.remove existing.provider) t

def restoreSettings (body : Json) (t : ProviderTable) : Except Bytes ProviderTable :=
  (elements (body.value (ascii "provider_settings") (.arr []))).foldlM
    (fun t value => do .ok (t.upsert (← settingOfJson value))) (removeSettings t)

/-- `restore_unlocked`, where nothing throws. -/
def restore (body : Json) (d : Device) : Except Bytes Device := do
  restoreVersion body
  let localModels ← restoreLocalModels body
  let runners ← restoreRunners body d.runners
  let providers ← restoreSettings body d.providers
  .ok { d with localModels, runners, providers }

def initializeDeviceConfig (d : Device) : Option Device :=
  let d := { d with configured := true }
  match d.file with
  | some body => (restore body d).toOption
  | none => writeSnapshot d

/-! A snapshot is read back -/

theorem optionalString_object {fields : List (Bytes × Json)} {key : String} {value : Option Bytes}
    (h : fields.lookup (ascii key) = some (optionalStringJson value)) :
    optionalString (.object fields) key = .ok value := by
  unfold optionalString given
  rw [Json.field?_object, h]
  cases value <;> rfl

theorem runnerOfJson_runnerJson (runner : Runner) :
    runnerOfJson (runnerJson runner) = .ok runner := by
  have hid : (runnerJson runner).atKey "runner_id" = .ok (.str runner.runnerId) :=
    Json.atKey_object (by simp)
  have hname : (runnerJson runner).atKey "name" = .ok (.str runner.name) :=
    Json.atKey_object (by simp [List.lookup_cons])
  have hkind : (runnerJson runner).atKey "kind" = .ok (.str runner.kind) :=
    Json.atKey_object (by simp [List.lookup_cons])
  have hbase : optionalString (runnerJson runner) "base_url" = .ok runner.baseUrl :=
    optionalString_object (by simp [List.lookup_cons])
  have hsource : (runnerJson runner).atKey "source" = .ok (.str runner.source) :=
    Json.atKey_object (by simp [List.lookup_cons])
  have henabled : (runnerJson runner).atKey "enabled" = .ok (.bool runner.enabled) :=
    Json.atKey_object (by simp [List.lookup_cons])
  have hcreated : (runnerJson runner).atKey "created_at" = .ok (.int runner.createdAt) :=
    Json.atKey_object (by simp [List.lookup_cons])
  have hupdated : (runnerJson runner).atKey "updated_at" = .ok (.int runner.updatedAt) :=
    Json.atKey_object (by simp [List.lookup_cons])
  simp [runnerOfJson, hid, hname, hkind, hbase, hsource, henabled, hcreated, hupdated, bind,
    Except.bind, Json.getString, Json.getBoolean, getLong]

theorem settingOfJson_settingJson (setting : ProviderSetting) :
    settingOfJson (settingJson setting) = .ok setting := by
  have hprovider : (settingJson setting).atKey "provider" = .ok (.str setting.provider) :=
    Json.atKey_object (by simp)
  have henabled : (settingJson setting).atKey "enabled" = .ok (.bool setting.enabled) :=
    Json.atKey_object (by simp [List.lookup_cons])
  have hupdated : (settingJson setting).atKey "updated_at" = .ok (.int setting.updatedAt.toInt) :=
    Json.atKey_object (by simp [List.lookup_cons])
  simp [settingOfJson, hprovider, henabled, hupdated, bind, Except.bind, Json.getString,
    Json.getBoolean, Json.getInt64]

/-- A loop that reads encoded rows. -/
theorem foldlM_decode {α β : Type} {encode : α → Json} {decode : Json → Except Bytes α}
    (h : ∀ a, decode (encode a) = .ok a) (put : β → α → β) (rows : List α) (t : β) :
    (rows.map encode).foldlM (fun t value => do .ok (put t (← decode value))) t =
      (.ok (rows.foldl put t) : Except Bytes β) := by
  induction rows generalizing t with
  | nil => rfl
  | cons a rows ih =>
    simp only [List.map_cons, List.foldlM_cons, List.foldl_cons, h, bind, Except.bind] at ih ⊢
    exact ih _

theorem foldl_remove_rows (listed : List Runner) (t : RunnerTable) :
    (listed.foldl
      (fun t existing => if isManual existing then t.remove existing.runnerId else t) t).rows =
      Rows.dropEach Runner.runnerId isManual listed t.rows := by
  induction listed generalizing t with
  | nil => rfl
  | cons a listed ih =>
    rw [List.foldl_cons, ih]
    cases h : isManual a with
    | false => simp [Rows.dropEach, h]
    | true => simp [Rows.dropEach, h, RunnerTable.remove]

theorem foldl_upsert_rows (rows : List Runner) (t : RunnerTable) :
    (rows.foldl RunnerTable.upsert t).rows =
      rows.foldl (fun rows a => Rows.put Runner.runnerId a rows) t.rows := by
  induction rows generalizing t with
  | nil => rfl
  | cons a rows ih => exact ih (t.upsert a)

theorem foldl_removeSetting_rows (listed : List ProviderSetting) (t : ProviderTable) :
    (listed.foldl (fun t existing => t.remove existing.provider) t).rows =
      Rows.dropEach ProviderSetting.provider (fun _ => true) listed t.rows := by
  induction listed generalizing t with
  | nil => rfl
  | cons a listed ih => exact ih (t.remove a.provider)

theorem foldl_upsertSetting_rows (rows : List ProviderSetting) (t : ProviderTable) :
    (rows.foldl ProviderTable.upsert t).rows =
      rows.foldl (fun rows a => Rows.put ProviderSetting.provider a rows) t.rows := by
  induction rows generalizing t with
  | nil => rfl
  | cons a rows ih => exact ih (t.upsert a)

theorem restoreVersion_snapshot (d : Device) : restoreVersion (snapshot d) = .ok () := by
  have hversion : (snapshot d).field? (ascii "version") = some (.int 1) := by
    rw [snapshot, Json.field?_object]
    simp
  simp only [restoreVersion, hversion, Json.getInt64, bind, Except.bind]
  rfl

theorem restoreLocalModels_snapshot (d : Device) :
    restoreLocalModels (snapshot d) =
      .ok (d.config.bind fun config => setLocalModels config.fastModel config.strongModel
        config.deepModel config.updatedAt) := by
  have hlocal : (snapshot d).field? (ascii "local_model") =
      some ((d.config.map configJson).getD .null) := by
    rw [snapshot, Json.field?_object]
    simp [List.lookup_cons]
  cases hconfig : d.config with
  | none =>
    rw [hconfig] at hlocal
    have hgiven : given (snapshot d) "local_model" = none := by
      rw [given, hlocal]
      rfl
    rw [restoreLocalModels, hgiven]
    rfl
  | some config =>
    rw [hconfig] at hlocal
    have hgiven : given (snapshot d) "local_model" = some (configJson config) := by
      rw [given, hlocal]
      rfl
    have hfast : optionalString (configJson config) "fast_model" = .ok config.fastModel :=
      optionalString_object (by simp)
    have hstrong : optionalString (configJson config) "strong_model" = .ok config.strongModel :=
      optionalString_object (by simp [List.lookup_cons])
    have hdeep : optionalString (configJson config) "deep_model" = .ok config.deepModel :=
      optionalString_object (by simp [List.lookup_cons])
    have hupdated : (configJson config).atKey "updated_at" = .ok (.int config.updatedAt.toInt) :=
      Json.atKey_object (by simp [List.lookup_cons])
    rw [restoreLocalModels, hgiven]
    simp only [hfast, hstrong, hdeep, hupdated, bind, Except.bind, Json.getInt64,
      Int64.ofInt_toInt, Option.bind_some]

/-- The rows that a restored table has. -/
theorem restoreRunners_snapshot (d : Device) :
    ∃ t, restoreRunners (snapshot d) d.runners = .ok t ∧
      t.rows = d.runners.rows.filter (fun runner => !isManual runner) ++
        d.runners.rows.filter isManual := by
  have hrunners : (snapshot d).value (ascii "manual_runners") (.arr []) =
      .arr ((d.runners.rows.filter isManual).map runnerJson) := by
    rw [Json.value, snapshot, Json.field?_object]
    simp [List.lookup_cons]
  have hperm := List.filter_append_perm (fun runner => !isManual runner) d.runners.rows
  simp only [Bool.not_not] at hperm
  have hunique := ((hperm.map Runner.runnerId).nodup_iff).mpr d.runners.unique
  refine ⟨(d.runners.rows.filter isManual).foldl RunnerTable.upsert (removeManual d.runners),
    ?_, ?_⟩
  · rw [restoreRunners, hrunners]
    exact foldlM_decode runnerOfJson_runnerJson RunnerTable.upsert _ _
  · rw [foldl_upsert_rows, removeManual, foldl_remove_rows, Rows.dropEach_self _ _ d.runners.unique,
      Rows.foldl_put Runner.runnerId hunique]

theorem restoreSettings_snapshot (d : Device) :
    ∃ t, restoreSettings (snapshot d) d.providers = .ok t ∧ t.rows = d.providers.rows := by
  have hsettings : (snapshot d).value (ascii "provider_settings") (.arr []) =
      .arr (d.providers.rows.map settingJson) := by
    rw [Json.value, snapshot, Json.field?_object]
    simp [List.lookup_cons]
  refine ⟨d.providers.rows.foldl ProviderTable.upsert (removeSettings d.providers), ?_, ?_⟩
  · rw [restoreSettings, hsettings]
    exact foldlM_decode settingOfJson_settingJson ProviderTable.upsert _ _
  · rw [foldl_upsertSetting_rows, removeSettings, foldl_removeSetting_rows,
      Rows.dropEach_self _ _ d.providers.unique]
    have hnil : d.providers.rows.filter (fun _ => !true) = [] := by simp
    have hput : d.providers.rows.foldl (fun rows a => Rows.put ProviderSetting.provider a rows) [] =
        d.providers.rows := Rows.foldl_put ProviderSetting.provider d.providers.unique
    rw [hnil, hput]

/-! Settings as they are read -/

/-- The settings that requests and clients read are the same ones. -/
structure SameSettings (d e : Device) : Prop where
  config : d.config = e.config
  runners : ∀ runnerId, d.runners.get runnerId = e.runners.get runnerId
  providers : ∀ provider, d.providers.get provider = e.providers.get provider
  credentials : d.credentials = e.credentials
  secrets : d.secrets = e.secrets

theorem SameSettings.refl (d : Device) : SameSettings d d :=
  ⟨rfl, fun _ => rfl, fun _ => rfl, rfl, rfl⟩

theorem SameSettings.trans {d e f : Device} (h : SameSettings d e) (h' : SameSettings e f) :
    SameSettings d f where
  config := h.config.trans h'.config
  runners id := (h.runners id).trans (h'.runners id)
  providers provider := (h.providers provider).trans (h'.providers provider)
  credentials := h.credentials.trans h'.credentials
  secrets := h.secrets.trans h'.secrets

def Device.Kept (d : Device) : Prop := ∀ row, d.localModels = some row → row.Kept

theorem config_restored {d : Device} (h : d.Kept) :
    let restored := d.config.bind fun config => setLocalModels config.fastModel config.strongModel
      config.deepModel config.updatedAt
    restored.map readConfig = d.config ∧ ∀ row, restored = some row → row.Kept := by
  cases hrow : d.localModels with
  | none =>
    have hconfig : d.config = none := by rw [Device.config, hrow]; rfl
    rw [hconfig]
    exact ⟨rfl, fun _ hnone => by cases hnone⟩
  | some row =>
    obtain ⟨again, hagain, hread, hkept⟩ := setLocalModels_readConfig (h row hrow)
    have hconfig : d.config = some (readConfig row) := by rw [Device.config, hrow]; rfl
    have hrestored : (d.config.bind fun config => setLocalModels config.fastModel
        config.strongModel config.deepModel config.updatedAt) = some again := by
      rw [hconfig]
      exact hagain
    dsimp only
    rw [hrestored, hconfig, Option.map_some, hread]
    exact ⟨rfl, fun _ hsome => Option.some.inj hsome ▸ hkept⟩

/-- A restored snapshot gives the settings and the snapshot that it was taken from. -/
theorem restore_snapshot {d : Device} (h : d.Kept) :
    ∃ e, restore (snapshot d) d = .ok e ∧ SameSettings e d ∧ e.Kept ∧ snapshot e = snapshot d ∧
      e.file = d.file ∧ e.configured = d.configured := by
  obtain ⟨runners, hrunners, hrows⟩ := restoreRunners_snapshot d
  obtain ⟨providers, hproviders, hsettings⟩ := restoreSettings_snapshot d
  obtain ⟨hconfig, hkept⟩ := config_restored h
  have hperm := List.filter_append_perm (fun runner => !isManual runner) d.runners.rows
  simp only [Bool.not_not] at hperm
  have hmanual : runners.rows.filter isManual = d.runners.rows.filter isManual := by
    rw [hrows, List.filter_append, List.filter_filter, List.filter_filter]
    simp
  let e : Device :=
    { d with
      localModels := d.config.bind fun config => setLocalModels config.fastModel
        config.strongModel config.deepModel config.updatedAt
      runners
      providers }
  have hrestore : restore (snapshot d) d = .ok e := by
    simp only [restore, restoreVersion_snapshot, restoreLocalModels_snapshot, hrunners, hproviders,
      bind, Except.bind]
    rfl
  refine ⟨e, hrestore, ⟨hconfig, fun id => ?_, fun provider => ?_, rfl, rfl⟩, hkept, ?_, rfl, rfl⟩
  · have hunique := runners.unique
    rw [hrows] at hunique
    show Rows.get Runner.runnerId id runners.rows = _
    rw [hrows]
    exact Rows.get_perm Runner.runnerId hperm hunique id
  · show Rows.get ProviderSetting.provider provider providers.rows = _
    rw [hsettings]
    rfl
  · have hsame : e.config = d.config := hconfig
    simp only [snapshot, hsame]
    rw [hmanual, hsettings]

/-! What can be written -/

def configEncodes (config : AiLocalModelConfig) : Bool :=
  config.fastModel.all validUtf8 && config.strongModel.all validUtf8 &&
    config.deepModel.all validUtf8

def runnerEncodes (runner : Runner) : Bool :=
  validUtf8 runner.runnerId && validUtf8 runner.name && validUtf8 runner.kind &&
    runner.baseUrl.all validUtf8 && validUtf8 runner.source

structure Device.Encodes (d : Device) : Prop where
  config : ∀ config, d.config = some config → configEncodes config = true
  runners : ∀ runner ∈ d.runners.rows, isManual runner = true → runnerEncodes runner = true
  providers : ∀ setting ∈ d.providers.rows, validUtf8 setting.provider = true

@[simp] theorem encodable_optionalStringJson (value : Option Bytes) :
    (optionalStringJson value).encodable = value.all validUtf8 := by
  cases value <;> rfl

theorem encodable_configJson (config : AiLocalModelConfig) :
    (configJson config).encodable = configEncodes config := by
  have hkeys : validUtf8 (ascii "fast_model") = true ∧ validUtf8 (ascii "strong_model") = true ∧
      validUtf8 (ascii "deep_model") = true ∧ validUtf8 (ascii "updated_at") = true := by decide
  rw [configJson, Json.encodable_object (by simp [ascii_inj])]
  simp [hkeys, configEncodes, Json.encodable, Bool.and_assoc]

theorem encodable_runnerJson (runner : Runner) :
    (runnerJson runner).encodable = runnerEncodes runner := by
  have hkeys : validUtf8 (ascii "runner_id") = true ∧ validUtf8 (ascii "name") = true ∧
      validUtf8 (ascii "kind") = true ∧ validUtf8 (ascii "base_url") = true ∧
      validUtf8 (ascii "source") = true ∧ validUtf8 (ascii "enabled") = true ∧
      validUtf8 (ascii "created_at") = true ∧ validUtf8 (ascii "updated_at") = true := by decide
  rw [runnerJson, Json.encodable_object (by simp [ascii_inj])]
  simp [hkeys, runnerEncodes, Json.encodable, Bool.and_assoc]

theorem encodable_settingJson (setting : ProviderSetting) :
    (settingJson setting).encodable = validUtf8 setting.provider := by
  have hkeys : validUtf8 (ascii "provider") = true ∧ validUtf8 (ascii "enabled") = true ∧
      validUtf8 (ascii "updated_at") = true := by decide
  rw [settingJson, Json.encodable_object (by simp [ascii_inj])]
  simp [hkeys, Json.encodable]

/-- The snapshot is encoded exactly where the rows it shows are UTF-8. -/
theorem encodable_snapshot (d : Device) : (snapshot d).encodable = true ↔ d.Encodes := by
  have hkeys : validUtf8 (ascii "version") = true ∧ validUtf8 (ascii "local_model") = true ∧
      validUtf8 (ascii "manual_runners") = true ∧
      validUtf8 (ascii "provider_settings") = true := by decide
  have hlocal : ((d.config.map configJson).getD .null).encodable = true ↔
      ∀ config, d.config = some config → configEncodes config = true := by
    cases d.config with
    | none => simp [Json.encodable]
    | some config => simp [encodable_configJson]
  rw [snapshot, Json.encodable_object (by simp [ascii_inj])]
  simp only [List.all_cons, List.all_nil, hkeys, Json.encodable, Json.encodableItems_eq,
    Bool.true_and, Bool.and_true, Bool.and_eq_true, hlocal, List.all_map, List.all_eq_true,
    List.mem_filter, Function.comp_apply, encodable_runnerJson, encodable_settingJson]
  constructor
  · rintro ⟨hconfig, hrunners, hproviders⟩
    exact ⟨hconfig, fun runner hmem hmanual => hrunners runner ⟨hmem, hmanual⟩, hproviders⟩
  · rintro ⟨hconfig, hrunners, hproviders⟩
    exact ⟨hconfig, fun runner hmem => hrunners runner hmem.1 hmem.2, hproviders⟩

end DeviceConfig

end HolderDaemon
