import HolderDaemon.DeviceConfig

/-!
`restore_unlocked` (`platform/DeviceConfigStore.cpp`) statement by statement: what it has done to
the rows where it throws, and a snapshot that is restored into another database.
-/

set_option autoImplicit false

open Bytes

namespace HolderDaemon

namespace DeviceConfig

open Runners

section Reading
-- what `get<long long>()` makes of a value, fractions and booleans included
variable (number : Json → Except Bytes Int)

def getLongLong (j : Json) : Except Bytes Int64 := (number j).map Int64.ofInt

def versionNumber (body : Json) : Except Bytes Unit := do
  let version ←
    match body.field? (ascii "version") with
    | none => .ok 0
    | some j => getLongLong number j
  if version.toInt32 ≠ 1 then .error (ascii "unsupported device config version") else .ok ()

def localModelsOf (body : Json) : Except Bytes (Option LocalModelRow) :=
  match given body "local_model" with
  | none => .ok none
  | some value => do
    let fastModel ← optionalString value "fast_model"
    let strongModel ← optionalString value "strong_model"
    let deepModel ← optionalString value "deep_model"
    let updatedAt ← getLongLong number (← value.atKey "updated_at")
    .ok (setLocalModels fastModel strongModel deepModel updatedAt)

def readRunner (value : Json) : Except Bytes Runner := do
  let runnerId ← (← value.atKey "runner_id").getString
  let name ← (← value.atKey "name").getString
  let kind ← (← value.atKey "kind").getString
  let baseUrl ← optionalString value "base_url"
  let source ← (← value.atKey "source").getString
  let enabled ← (← value.atKey "enabled").getBoolean
  let createdAt ← number (← value.atKey "created_at")
  let updatedAt ← number (← value.atKey "updated_at")
  .ok { runnerId, name, kind, baseUrl, source, enabled, createdAt, updatedAt }

def readSetting (value : Json) : Except Bytes ProviderSetting := do
  let provider ← (← value.atKey "provider").getString
  let enabled ← (← value.atKey "enabled").getBoolean
  let updatedAt ← getLongLong number (← value.atKey "updated_at")
  .ok { provider, enabled, updatedAt }

end Reading

/-! Entry by entry -/

section Entries
variable {α β : Type} (read : Json → Except Bytes α) (upsert : β → α → β)

/-- A loop that writes every entry as soon as it is read: the rows it leaves, and what it throws. -/
def upsertEach : List Json → β → β × Option Bytes
  | [], t => (t, none)
  | value :: values, t =>
    match read value with
    | .error e => (t, some e)
    | .ok a => upsertEach values (upsert t a)

/-- The entries before the first one that cannot be read. -/
def readable : List Json → List α
  | [] => []
  | value :: values =>
    match read value with
    | .error _ => []
    | .ok a => a :: readable values

def firstError : List Json → Option Bytes
  | [] => none
  | value :: values =>
    match read value with
    | .error e => some e
    | .ok _ => firstError values

theorem upsertEach_eq (values : List Json) (t : β) :
    upsertEach read upsert values t =
      ((readable read values).foldl upsert t, firstError read values) := by
  induction values generalizing t with
  | nil => rfl
  | cons value values ih =>
    simp only [upsertEach, readable, firstError]
    cases read value with
    | error e => rfl
    | ok a => exact ih (upsert t a)

/-- The outcome without the rows that a throw leaves. -/
def settle : β × Option Bytes → Except Bytes β
  | (t, none) => .ok t
  | (_, some e) => .error e

theorem foldlM_upsert (values : List Json) (t : β) :
    values.foldlM (fun t value => do .ok (upsert t (← read value))) t =
      settle (upsertEach read upsert values t) := by
  induction values generalizing t with
  | nil => rfl
  | cons value values ih =>
    simp only [List.foldlM_cons, upsertEach]
    cases read value with
    | error e => rfl
    | ok a => exact ih (upsert t a)

theorem readable_map {encode : α → Json} (h : ∀ a, read (encode a) = .ok a) (rows : List α) :
    readable read (rows.map encode) = rows ∧ firstError read (rows.map encode) = none := by
  induction rows with
  | nil => exact ⟨rfl, rfl⟩
  | cons a rows ih =>
    simp only [List.map_cons, readable, firstError, h]
    exact ⟨congrArg (a :: ·) ih.1, ih.2⟩

end Entries

/-! The restore -/

section Restore
variable (number : Json → Except Bytes Int)

def manualRunners (body : Json) : List Json :=
  elements (body.value (ascii "manual_runners") (.arr []))

def providerSettings (body : Json) : List Json :=
  elements (body.value (ascii "provider_settings") (.arr []))

/-- What `restore_unlocked` leaves of the rows, and what it throws; `content` is none where the
file's text is no JSON. -/
def restoreUnlocked (content : Option Json) (d : Device) : Device × Option Bytes :=
  match content with
  | none => (d, some (ascii "[json.exception.parse_error.101] parse error"))
  | some body =>
    match versionNumber number body with
    | .error e => (d, some e)
    | .ok () =>
      match localModelsOf number body with
      | .error e => (d, some e)
      | .ok localModels =>
        match upsertEach (readRunner number) RunnerTable.upsert (manualRunners body)
          (removeManual d.runners) with
        | (runners, some e) => ({ d with localModels, runners }, some e)
        | (runners, none) =>
          match upsertEach (readSetting number) ProviderTable.upsert (providerSettings body)
            (removeSettings d.providers) with
          | (providers, error) => ({ d with localModels, runners, providers }, error)

end Restore

theorem getLongLong_getLong : getLongLong getLong = Json.getInt64 := by
  funext j
  cases j <;> rfl

/-- Over integers it is the restore of a start. -/
theorem restoreUnlocked_getLong (body : Json) (d : Device) :
    restore body d = settle (restoreUnlocked getLong (some body) d) := by
  have hversion : versionNumber getLong body = restoreVersion body := by
    rw [versionNumber, getLongLong_getLong]
    rfl
  have hlocal : localModelsOf getLong body = restoreLocalModels body := by
    rw [localModelsOf, getLongLong_getLong]
    rfl
  have hreadRunner : readRunner getLong = runnerOfJson := rfl
  have hreadSetting : readSetting getLong = settingOfJson := by
    funext value
    rw [readSetting, getLongLong_getLong]
    rfl
  have hrunners : restoreRunners body d.runners =
      settle (upsertEach runnerOfJson RunnerTable.upsert (manualRunners body)
        (removeManual d.runners)) :=
    foldlM_upsert runnerOfJson RunnerTable.upsert (manualRunners body) (removeManual d.runners)
  have hproviders : restoreSettings body d.providers =
      settle (upsertEach settingOfJson ProviderTable.upsert (providerSettings body)
        (removeSettings d.providers)) :=
    foldlM_upsert settingOfJson ProviderTable.upsert (providerSettings body)
      (removeSettings d.providers)
  simp only [restore, restoreUnlocked, hversion, hlocal, hreadRunner, hreadSetting, hrunners,
    hproviders, bind, Except.bind]
  cases restoreVersion body with
  | error e => rfl
  | ok _ =>
    cases restoreLocalModels body with
    | error e => rfl
    | ok localModels =>
      dsimp only
      rcases upsertEach runnerOfJson RunnerTable.upsert (manualRunners body)
        (removeManual d.runners) with ⟨runners, _ | e⟩
      · dsimp only [settle]
        rcases upsertEach settingOfJson ProviderTable.upsert (providerSettings body)
          (removeSettings d.providers) with ⟨providers, _ | e⟩
        · rfl
        · rfl
      · rfl

/-! What is left where it throws -/

structure SameTables (d e : Device) : Prop where
  localModels : e.localModels = d.localModels
  runners : ∀ runnerId, e.runners.get runnerId = d.runners.get runnerId
  providers : ∀ provider, e.providers.get provider = d.providers.get provider

theorem get_upserted_runners (entries : List Runner) (t : RunnerTable) :
    (∀ runnerId, (entries.foldl RunnerTable.upsert (removeManual t)).get runnerId =
        t.get runnerId) ↔
      Rows.Restates Runner.runnerId (fun runner => !isManual runner) entries t.rows := by
  rw [Rows.restates_iff Runner.runnerId t.unique]
  simp only [RunnerTable.get, foldl_upsert_rows, removeManual, foldl_remove_rows,
    Rows.dropEach_self Runner.runnerId isManual t.unique]

theorem get_upserted_settings (entries : List ProviderSetting) (t : ProviderTable) :
    (∀ provider, (entries.foldl ProviderTable.upsert (removeSettings t)).get provider =
        t.get provider) ↔
      Rows.Restates ProviderSetting.provider (fun _ => false) entries t.rows := by
  rw [Rows.restates_iff ProviderSetting.provider t.unique]
  simp only [ProviderTable.get, foldl_upsertSetting_rows, removeSettings,
    foldl_removeSetting_rows, Rows.dropEach_self ProviderSetting.provider (fun _ => true) t.unique,
    Bool.not_true]

section Restore
variable (number : Json → Except Bytes Int)

/-- Nothing is written before the error, or all entries can be read, or what is read before the
first bad one is what the rows say already. -/
def Spared (content : Option Json) (d : Device) : Prop :=
  match content with
  | none => True
  | some body =>
    match versionNumber number body, localModelsOf number body with
    | .ok (), .ok localModels =>
      firstError (readRunner number) (manualRunners body) = none ∧
          firstError (readSetting number) (providerSettings body) = none ∨
        localModels = d.localModels ∧
          Rows.Restates Runner.runnerId (fun runner => !isManual runner)
            (readable (readRunner number) (manualRunners body)) d.runners.rows ∧
          (firstError (readRunner number) (manualRunners body) = none →
            Rows.Restates ProviderSetting.provider (fun _ => false)
              (readable (readSetting number) (providerSettings body)) d.providers.rows)
    | _, _ => True

/-- A restore that throws has changed nothing, exactly where it is spared. -/
theorem restore_unchanged_iff (content : Option Json) (d : Device) :
    ((restoreUnlocked number content d).2 ≠ none →
      SameTables d (restoreUnlocked number content d).1) ↔ Spared number content d := by
  have hsame : SameTables d d := ⟨rfl, fun _ => rfl, fun _ => rfl⟩
  unfold Spared
  cases content with
  | none => exact iff_of_true (fun _ => hsame) trivial
  | some body =>
    simp only [restoreUnlocked]
    cases versionNumber number body with
    | error e => exact iff_of_true (fun _ => hsame) trivial
    | ok _ =>
      cases localModelsOf number body with
      | error e => exact iff_of_true (fun _ => hsame) trivial
      | ok localModels =>
        simp only [upsertEach_eq]
        rw [← get_upserted_runners, ← get_upserted_settings]
        cases firstError (readRunner number) (manualRunners body) with
        | some e =>
          -- the settings are not reached
          simp only [ne_eq, reduceCtorEq, not_false_eq_true, true_implies, false_and, false_or,
            false_implies, and_true]
          exact ⟨fun h => ⟨h.localModels, h.runners⟩, fun h => ⟨h.1, h.2, fun _ => rfl⟩⟩
        | none =>
          cases firstError (readSetting number) (providerSettings body) with
          | none => simp
          | some e =>
            simp only [ne_eq, reduceCtorEq, not_false_eq_true, true_implies, and_false, false_or]
            exact ⟨fun h => ⟨h.localModels, h.runners, h.providers⟩,
              fun h => ⟨h.1, h.2.1, h.2.2⟩⟩

end Restore

/-! A snapshot in another database -/

/-- The local models, the manual runners and the provider settings of both are the same. -/
structure SameConfig (d e : Device) : Prop where
  config : e.config = d.config
  manual : ∀ runnerId,
    (e.runners.get runnerId).filter isManual = (d.runners.get runnerId).filter isManual
  providers : ∀ provider, e.providers.get provider = d.providers.get provider

section Snapshot
variable {number : Json → Except Bytes Int} (hnumber : ∀ i, number (.int i) = .ok i)
include hnumber

theorem getLongLong_int (i : Int) : getLongLong number (.int i) = .ok (Int64.ofInt i) := by
  rw [getLongLong, hnumber]
  rfl

theorem versionNumber_snapshot (d : Device) : versionNumber number (snapshot d) = .ok () := by
  have hversion : (snapshot d).field? (ascii "version") = some (.int 1) := by
    rw [snapshot, Json.field?_object]
    simp
  simp only [versionNumber, hversion, getLongLong_int hnumber, bind, Except.bind]
  rfl

theorem localModelsOf_snapshot (d : Device) :
    localModelsOf number (snapshot d) =
      .ok (d.config.bind fun config => setLocalModels config.fastModel config.strongModel
        config.deepModel config.updatedAt) := by
  have hsame : localModelsOf number (snapshot d) = restoreLocalModels (snapshot d) := by
    have hlocal : (snapshot d).field? (ascii "local_model") =
        some ((d.config.map configJson).getD .null) := by
      rw [snapshot, Json.field?_object]
      simp [List.lookup_cons]
    rw [localModelsOf, restoreLocalModels, given, hlocal]
    cases d.config with
    | none => rfl
    | some config =>
      have hupdated : (configJson config).atKey "updated_at" = .ok (.int config.updatedAt.toInt) :=
        Json.atKey_object (by simp [List.lookup_cons])
      simp only [Option.map_some, Option.getD_some]
      simp only [configJson, Json.object] at hupdated ⊢
      simp only [hupdated, getLongLong_int hnumber, bind, Except.bind]
      rfl
  rw [hsame, restoreLocalModels_snapshot]

theorem readRunner_runnerJson (runner : Runner) :
    readRunner number (runnerJson runner) = .ok runner := by
  have hcreated : (runnerJson runner).atKey "created_at" = .ok (.int runner.createdAt) :=
    Json.atKey_object (by simp [List.lookup_cons])
  have hupdated : (runnerJson runner).atKey "updated_at" = .ok (.int runner.updatedAt) :=
    Json.atKey_object (by simp [List.lookup_cons])
  rw [← runnerOfJson_runnerJson runner]
  simp only [readRunner, runnerOfJson, hcreated, hupdated, hnumber, bind, Except.bind]
  rfl

theorem readSetting_settingJson (setting : ProviderSetting) :
    readSetting number (settingJson setting) = .ok setting := by
  have hupdated : (settingJson setting).atKey "updated_at" = .ok (.int setting.updatedAt.toInt) :=
    Json.atKey_object (by simp [List.lookup_cons])
  rw [← settingOfJson_settingJson setting]
  simp only [readSetting, settingOfJson, hupdated, getLongLong_int hnumber, bind, Except.bind]
  rfl

end Snapshot

/-- The configuration comes back exactly where its row has a model and no empty text. -/
theorem config_restored_iff (d : Device) :
    (d.config.bind fun config => setLocalModels config.fastModel config.strongModel
        config.deepModel config.updatedAt).map readConfig = d.config ↔ d.Kept := by
  refine ⟨fun h row hrow => ?_, fun h => (config_restored h).1⟩
  have hconfig : d.config = some (readConfig row) := by rw [Device.config, hrow]; rfl
  rw [hconfig, Option.bind_some, Option.map_eq_some_iff] at h
  obtain ⟨again, hagain, hread⟩ := h
  dsimp only [setLocalModels, readConfig] at hagain
  by_cases hany : hasAnyModel (readModel row.fastModel) (readModel row.strongModel)
      (readModel row.deepModel) = true
  · rw [if_pos hany] at hagain
    cases hagain
    obtain ⟨hfast, hstrong, hdeep, -⟩ := AiLocalModelConfig.mk.inj hread
    -- an empty text is read as an empty name, which is stored as none
    have htext : ∀ column : Option Text, readModel (storedModel (readModel column)) =
        readModel column → ∀ text, column = some text → text.val ≠ [] := by
      rintro column hsame text rfl hnil
      have hempty : readModel (some text) = some [] := by
        rw [readModel, Option.map_some, hnil]
        rfl
      rw [hempty] at hsame
      cases hsame
    have hsome : ∀ column : Option Text,
        (readModel column).any (fun value => decide (value ≠ [])) = true →
          column.isSome = true := by
      intro column hmodel
      cases column with
      | none => cases hmodel
      | some text => rfl
    refine ⟨?_, ?_⟩
    · simp only [hasAnyModel, List.any_cons, List.any_nil, Bool.or_false, Bool.or_eq_true] at hany
      exact hany.imp (hsome _) fun hrest => hrest.imp (hsome _) (hsome _)
    · simp only [List.forall_mem_cons]
      exact ⟨htext _ hfast, htext _ hstrong, htext _ hdeep, List.forall_mem_nil _⟩
  · rw [if_neg hany] at hagain
    cases hagain

theorem manual_restored (d e : Device) (runnerId : Bytes) :
    (((d.runners.rows.filter isManual).foldl RunnerTable.upsert (removeManual e.runners)).get
        runnerId).filter isManual = (d.runners.get runnerId).filter isManual := by
  have hunique : ((d.runners.rows.filter isManual).map Runner.runnerId).Nodup :=
    d.runners.unique.sublist (List.filter_sublist.map _)
  have hreverse : Rows.get Runner.runnerId runnerId (d.runners.rows.filter isManual).reverse =
      (d.runners.get runnerId).filter isManual := by
    rw [← Rows.get_perm Runner.runnerId (List.reverse_perm _).symm hunique,
      Rows.get_filter Runner.runnerId isManual d.runners.unique]
    rfl
  rw [RunnerTable.get, foldl_upsert_rows, removeManual, foldl_remove_rows,
    Rows.dropEach_self Runner.runnerId isManual e.runners.unique, Rows.get_foldl_put, hreverse,
    Rows.get_filter Runner.runnerId _ e.runners.unique]
  cases d.runners.get runnerId with
  | none =>
    cases Rows.get Runner.runnerId runnerId e.runners.rows with
    | none => rfl
    | some b => cases h : isManual b <;> simp [Option.filter_some, h]
  | some a =>
    cases ha : isManual a with
    | true => simp [Option.filter_some, ha]
    | false =>
      cases Rows.get Runner.runnerId runnerId e.runners.rows with
      | none => simp [Option.filter_some, ha]
      | some b => cases h : isManual b <;> simp [Option.filter_some, ha, h]

theorem settings_restored (d e : Device) (provider : Bytes) :
    (d.providers.rows.foldl ProviderTable.upsert (removeSettings e.providers)).get provider =
      d.providers.get provider := by
  rw [ProviderTable.get, foldl_upsertSetting_rows, removeSettings, foldl_removeSetting_rows,
    Rows.dropEach_self ProviderSetting.provider (fun _ => true) e.providers.unique,
    Rows.get_foldl_put, Rows.get_filter ProviderSetting.provider _ e.providers.unique,
    ← Rows.get_perm ProviderSetting.provider (List.reverse_perm _).symm d.providers.unique]
  simp [ProviderTable.get]

/-- A snapshot restored into any database gives back the settings, exactly where the row of the
local models has a model and no empty text; and a restore of any content that throws has changed
nothing, exactly where it is spared. -/
theorem restore_exact_and_unchanged {number : Json → Except Bytes Int}
    (hnumber : ∀ i, number (.int i) = .ok i) :
    (∀ d w e, writeSnapshot d = some w → ∃ body, w.file = some body ∧
      (restoreUnlocked number (some body) e).2 = none ∧
        (SameConfig d (restoreUnlocked number (some body) e).1 ↔ d.Kept)) ∧
      ∀ content d, ((restoreUnlocked number content d).2 ≠ none →
        SameTables d (restoreUnlocked number content d).1) ↔ Spared number content d := by
  refine ⟨fun d w e hwrite => ⟨snapshot d, ?_, ?_⟩, restore_unchanged_iff number⟩
  · unfold writeSnapshot at hwrite
    split at hwrite
    · cases hwrite
      rfl
    · cases hwrite
  · have hrunners : manualRunners (snapshot d) =
        (d.runners.rows.filter isManual).map runnerJson := by
      rw [manualRunners, Json.value, snapshot, Json.field?_object]
      simp [List.lookup_cons, elements]
    have hsettings : providerSettings (snapshot d) = d.providers.rows.map settingJson := by
      rw [providerSettings, Json.value, snapshot, Json.field?_object]
      simp [List.lookup_cons, elements]
    have hreadable := readable_map (readRunner number) (readRunner_runnerJson hnumber)
    have hreadableSettings := readable_map (readSetting number) (readSetting_settingJson hnumber)
    simp only [restoreUnlocked, versionNumber_snapshot hnumber, localModelsOf_snapshot hnumber,
      upsertEach_eq, hrunners, hsettings, (hreadable _).1, (hreadable _).2,
      (hreadableSettings _).1, (hreadableSettings _).2, true_and]
    rw [← config_restored_iff]
    exact ⟨fun h => h.config, fun h => ⟨h, manual_restored d e, settings_restored d e⟩⟩

/-! A manual runner -/

def officeRunner : Runner :=
  ⟨ascii "office", ascii "Office", ascii "ollama", none, ascii "manual", true, 11, 12⟩

def officeDevice : Device where
  localModels := none
  runners := ⟨[officeRunner], List.nodup_singleton _⟩
  providers := ⟨[⟨ascii "mistral", true, 13⟩], List.nodup_singleton _⟩

/-- A second runner without its fields. -/
def brokenDocument : Json :=
  .object [(ascii "version", .int 1), (ascii "manual_runners", .arr [.object []])]

/-- The runners are gone by the time the entry is found to be bad. -/
theorem restore_half_applied :
    (restoreUnlocked getLong (some brokenDocument) officeDevice).2 ≠ none ∧
      ¬ SameTables officeDevice (restoreUnlocked getLong (some brokenDocument) officeDevice).1 := by
  have hgone : (restoreUnlocked getLong (some brokenDocument) officeDevice).1.runners.get
      (ascii "office") = none := by decide +kernel
  refine ⟨by decide +kernel, fun h => ?_⟩
  have hget := h.runners (ascii "office")
  rw [hgone] at hget
  exact absurd hget (by decide)

/-- The snapshot of the device in an empty database; and a version that is not supported. -/
theorem restore_exact_and_unchanged_office :
    let empty : Device := ⟨none, ⟨[], List.nodup_nil⟩, ⟨[], List.nodup_nil⟩, [], [], false, none⟩
    let unsupported : Json := .object [(ascii "version", .int 2)]
    (∃ w body, writeSnapshot officeDevice = some w ∧ w.file = some body ∧
        SameConfig officeDevice (restoreUnlocked getLong (some body) empty).1) ∧
      (restoreUnlocked getLong (some unsupported) officeDevice).2 ≠ none ∧
        SameTables officeDevice (restoreUnlocked getLong (some unsupported) officeDevice).1 := by
  intro empty unsupported
  have hall := @restore_exact_and_unchanged getLong fun _ => rfl
  have hwrite : writeSnapshot officeDevice =
      some { officeDevice with file := some (snapshot officeDevice) } := by
    rw [writeSnapshot, if_pos]
    decide +kernel
  have herror : (restoreUnlocked getLong (some unsupported) officeDevice).2 ≠ none := by
    decide +kernel
  have hversion : versionNumber getLong unsupported =
      .error (ascii "unsupported device config version") := by
    rfl
  obtain ⟨body, hfile, -, hiff⟩ := hall.1 officeDevice _ empty hwrite
  refine ⟨⟨_, body, hwrite, hfile, hiff.mpr nofun⟩, herror, (hall.2 _ _).mpr ?_ herror⟩
  simp only [Spared, hversion]

end DeviceConfig

end HolderDaemon
