import HolderDaemon.DeviceRequests

/-!
Provider credentials under failures (`api/routes/ai/providers/AiProviderCredentialRoutes.cpp`):
PUT and DELETE change the secret store, the credential's row and the provider's setting one after
the other, and then write the file.
-/

set_option autoImplicit false

open Bytes
open Json (of_bind_ok)

namespace HolderDaemon

namespace DeviceConfig

open Runners

/-! The listing -/

/-- `preview_for_output`. -/
def previewForOutput (stored : Bytes) : Bytes :=
  if (42 : UInt8) ∈ stored then stored else maskApiKey stored

/-- GET /ai/providers/credentials: providers and previews. -/
def Device.listCredentials (d : Device) : List (Bytes × Bytes) :=
  d.credentials.map fun credential =>
    (credential.provider, previewForOutput credential.apiKeyPreview)

theorem previewForOutput_maskApiKey (apiKey : Bytes) :
    previewForOutput (maskApiKey apiKey) = maskApiKey apiKey := by
  unfold previewForOutput
  split
  · rfl
  · rename_i hstar
    unfold maskApiKey at hstar ⊢
    split
    · rfl
    · rename_i hne
      rw [if_neg hne] at hstar
      split
      · rename_i hshort
        rw [if_pos hshort] at hstar
        exact absurd (by decide) hstar
      · rename_i hlong
        have hdots : (ascii "...").length = 3 := by decide
        have hfirst : (apiKey.take 4).length = 4 := List.length_take_of_le (by omega)
        have hlast : (apiKey.drop (apiKey.length - 2)).length = 2 := by
          rw [List.length_drop]
          omega
        have hlength : (apiKey.take 4 ++ ascii "..." ++
            apiKey.drop (apiKey.length - 2)).length = 9 := by
          rw [List.length_append, List.length_append, hdots, hfirst, hlast]
        rw [if_neg (List.ne_nil_of_length_pos (by omega)), if_neg (by omega), hlength]
        congr 1
        · rw [List.append_assoc, List.take_left' hfirst]
        · rw [List.drop_left' (by rw [List.length_append, hfirst, hdots])]

/-! One change -/

/-- Secrets, credentials and settings are as they were. -/
structure SameEntries (d e : Device) : Prop where
  secrets : ∀ account,
    Rows.get Secret.account account e.secrets = Rows.get Secret.account account d.secrets
  credentials : ∀ provider,
    Rows.get Credential.provider provider e.credentials =
      Rows.get Credential.provider provider d.credentials
  settings : ∀ provider, e.providers.get provider = d.providers.get provider

theorem SameEntries.refl (d : Device) : SameEntries d d := ⟨fun _ => rfl, fun _ => rfl, fun _ => rfl⟩

/-- PUT and DELETE of a credential. -/
def DeviceRequest.ChangesCredential (r : DeviceRequest) : Prop :=
  (r.path = credentialsPath ∧ r.method = .put) ∨
    ((credentialsPath ++ slash).isPrefixOf r.path ∧ r.method = .delete)

/-- The writes that are made where the request is answered with an error: those before the call
that throws, or all of them where it is the writing of the file. -/
def Plan.torn (p : Plan) (d : Device) (fault : Option Nat) : List Write :=
  if Effects.Spares fault p.effects.length then
    if (persistDeviceConfig (d.perform p.writes)).isSome then [] else p.writes
  else p.writes.take (fault.getD 0 - p.reads)

/-- No call throws after another one has changed something. -/
def Untorn (d : Device) (r : DeviceRequest) (fault : Option Nat) : Prop :=
  ∀ p, r.plan d = some (.ok p) → ∀ w ∈ p.torn d fault, SameEntries d (w.apply d)

theorem persistDeviceConfig_file {d e : Device} (h : persistDeviceConfig d = some e) :
    ∃ file, e = { d with file } := by
  unfold persistDeviceConfig at h
  split at h
  · unfold writeSnapshot at h
    split at h
    · exact ⟨_, (Option.some.inj h).symm⟩
    · cases h
  · exact ⟨d.file, (Option.some.inj h).symm⟩

theorem effects_eq (p : Plan) :
    p.effects = (List.replicate p.reads Effect.read ++ p.writes.map Effect.write) ++
      Effect.persist :: p.after := by
  rw [Plan.effects, List.append_assoc]

theorem foldlM_before (p : Plan) (d : Device) (k : Nat) :
    ((List.replicate p.reads Effect.read ++ p.writes.map Effect.write).take k).foldlM Effect.act d =
      some (d.perform (p.writes.take (k - p.reads))) := by
  rw [List.take_append, List.length_replicate, List.take_replicate, ← List.map_take,
    List.foldlM_append, foldlM_reads]
  exact foldlM_writes d _

/-- What a request has done when it is answered. -/
theorem run_effects_cases (p : Plan) (d : Device) (fault : Option Nat) :
    (∃ file, Effects.run Effect.act fault p.effects d = (true, { d.perform p.writes with file }) ∧
        p.torn d fault = []) ∨
      ∃ file, Effects.run Effect.act fault p.effects d =
        (false, { d.perform (p.torn d fault) with file }) := by
  let before : List Effect := List.replicate p.reads .read ++ p.writes.map Effect.write
  have hlength : before.length = p.reads + p.writes.length := by simp [before]
  have hall : ∀ k, before.length ≤ k → p.writes.take (k - p.reads) = p.writes := fun k hk =>
    List.take_of_length_le (by omega)
  by_cases hspares : Effects.Spares fault before.length
  · have hbefore : before.foldlM Effect.act d = some (d.perform p.writes) := by
      have hfold := foldlM_before p d before.length
      rwa [List.take_of_length_le (Nat.le_refl _), hall _ (Nat.le_refl _)] at hfold
    have htorn : ¬ Effects.Spares fault p.effects.length → p.torn d fault = p.writes := by
      intro hfault
      obtain ⟨k, rfl, -⟩ := Effects.exists_of_not_spares hfault
      rw [Plan.torn, if_neg hfault]
      exact hall k (hspares k rfl)
    have hafter : ∀ u, ∀ e ∈ p.after, Effect.act u e = some u := fun u e he => act_after he u
    have hrun := Effects.run_pivot (e := .persist) hspares hbefore hafter
    rw [← effects_eq] at hrun
    obtain ⟨hrun, hwhy⟩ | ⟨e, hpersist, hrun⟩ := hrun
    · -- the file is not written
      refine .inr ⟨(d.perform p.writes).file, ?_⟩
      rw [hrun]
      by_cases hfault : Effects.Spares fault p.effects.length
      · have hthrows : persistDeviceConfig (d.perform p.writes) = none :=
          hwhy.resolve_right fun h => h hfault
        rw [Plan.torn, if_pos hfault, hthrows]
        rfl
      · rw [htorn hfault]
    · obtain ⟨file, rfl⟩ := persistDeviceConfig_file hpersist
      by_cases hfault : Effects.Spares fault p.effects.length
      · refine .inl ⟨file, by rw [hrun, decide_eq_true hfault], ?_⟩
        have hgoes : persistDeviceConfig (d.perform p.writes) = _ := hpersist
        rw [Plan.torn, if_pos hfault, hgoes]
        rfl
      · exact .inr ⟨file, by rw [hrun, decide_eq_false hfault, htorn hfault]⟩
  · obtain ⟨k, rfl, hk⟩ := Effects.exists_of_not_spares hspares
    have htotal : before.length ≤ p.effects.length := by
      rw [effects_eq]
      exact (List.sublist_append_left _ _).length_le
    refine .inr ⟨(d.perform (p.torn d (some k))).file, ?_⟩
    have htorn : p.torn d (some k) = p.writes.take (k - p.reads) := by
      rw [Plan.torn, if_neg fun h => hspares fun m hm => Nat.le_trans htotal (h m hm)]
      rfl
    rw [htorn]
    refine Effects.run_cut (Nat.lt_of_lt_of_le hk htotal) ?_
    rw [effects_eq, List.take_append_of_le_length (Nat.le_of_lt hk)]
    exact foldlM_before p d k

/-! What the plans write -/

/-- Secrets and credentials are not touched. -/
def Write.LeavesKeys (w : Write) : Prop :=
  ∀ d, (w.apply d).secrets = d.secrets ∧ (w.apply d).credentials = d.credentials

/-- The plan of a PUT: the key is stored, listed by its preview, and the provider enabled. -/
structure Plan.Puts (p : Plan) (provider apiKey : Bytes) (createdAt updatedAt : Int64) : Prop where
  writes : p.writes = [.setSecret ⟨provider, apiKey, maskApiKey apiKey, createdAt, updatedAt⟩,
    .setCredential ⟨provider, maskApiKey apiKey, createdAt, updatedAt⟩,
    .setProvider ⟨provider, true, updatedAt⟩]
  success : ∀ d, (p.reply d).success = true

/-- The plan of a DELETE. -/
structure Plan.Removes (p : Plan) (provider : Bytes) (now : Int64) : Prop where
  writes : p.writes = [.removeSecret provider, .removeCredential provider,
    .setProvider ⟨provider, false, now⟩]
  success : ∀ d, (p.reply d).success = true

theorem setCredential_puts {r : DeviceRequest} {d : Device} {body : Json} {p : Plan}
    (h : r.setCredential d body = .ok p) :
    ∃ provider apiKey createdAt updatedAt, p.Puts provider apiKey createdAt updatedAt := by
  unfold DeviceRequest.setCredential at h
  split at h
  · obtain ⟨raw, _, h⟩ := of_bind_ok h
    dsimp only at h
    split at h
    · cases h
    obtain ⟨apiKey, _, h⟩ := of_bind_ok h
    split at h
    · cases h
    obtain ⟨updatedAt, _, h⟩ := of_bind_ok h
    cases h
    exact ⟨_, _, _, _, ⟨rfl, fun _ => rfl⟩⟩
  · cases h

theorem removeCredential_removes {r : DeviceRequest} {raw : Bytes} {p : Plan}
    (h : r.removeCredential raw = .ok p) : ∃ provider now, p.Removes provider now := by
  unfold DeviceRequest.removeCredential at h
  dsimp only at h
  split at h
  · cases h
  · cases h
    exact ⟨_, _, ⟨rfl, fun _ => rfl⟩⟩

theorem plan_changesCredential {r : DeviceRequest} (h : r.ChangesCredential) (d : Device) :
    (r.plan d = some (r.json.mapError badRequest >>= r.setCredential d)) ∨
      r.plan d = some (r.removeCredential (r.path.drop (credentialsPath ++ slash).length)) := by
  rcases h with ⟨hpath, hmethod⟩ | ⟨hpath, hmethod⟩
  · left
    have hmodels : credentialsPath ≠ ascii "/ai/local-models/config" := by decide
    have hsettings : credentialsPath ≠ settingsPath := by decide
    have hbelow : (settingsPath ++ slash).isPrefixOf credentialsPath = false := by decide
    simp [DeviceRequest.plan, hpath, hmethod, hmodels, hsettings, hbelow]
  · right
    have hbelow : ¬ (settingsPath ++ slash).isPrefixOf r.path = true := by
      intro hother
      have hboth := List.prefix_of_prefix_length_le (List.isPrefixOf_iff_prefix.mp hother)
        (List.isPrefixOf_iff_prefix.mp hpath) (by decide)
      exact absurd (List.isPrefixOf_iff_prefix.mpr hboth) (by decide)
    simp [DeviceRequest.plan, hpath, hmethod, hbelow]

theorem leavesKeys_of_writes {p : Plan} {w : Write} (hw : w.LeavesKeys) (h : p.writes = [w]) :
    ∀ v ∈ p.writes, v.LeavesKeys := by
  rw [h, List.forall_mem_singleton]
  exact hw

theorem setModels_leavesKeys {r : DeviceRequest} {body : Json} {p : Plan}
    (h : r.setModels body = .ok p) : ∀ w ∈ p.writes, w.LeavesKeys := by
  unfold DeviceRequest.setModels at h
  obtain ⟨fastModel, _, h⟩ := of_bind_ok h
  obtain ⟨strongModel, _, h⟩ := of_bind_ok h
  obtain ⟨deepModel, _, h⟩ := of_bind_ok h
  obtain ⟨updatedAt, _, h⟩ := of_bind_ok h
  cases h
  exact leavesKeys_of_writes (fun _ => ⟨rfl, rfl⟩) rfl

theorem setProvider_leavesKeys {r : DeviceRequest} {body : Json} {p : Plan}
    (h : r.setProvider body = .ok p) : ∀ w ∈ p.writes, w.LeavesKeys := by
  unfold DeviceRequest.setProvider at h
  split at h
  · obtain ⟨raw, _, h⟩ := of_bind_ok h
    dsimp only at h
    split at h
    · cases h
    obtain ⟨enabled, _, h⟩ := of_bind_ok h
    obtain ⟨updatedAt, _, h⟩ := of_bind_ok h
    cases h
    exact leavesKeys_of_writes (fun _ => ⟨rfl, rfl⟩) rfl
  · cases h

theorem removeProvider_leavesKeys {raw : Bytes} {p : Plan} (h : removeProvider raw = .ok p) :
    ∀ w ∈ p.writes, w.LeavesKeys := by
  unfold DeviceConfig.removeProvider at h
  dsimp only at h
  split at h
  · cases h
  · cases h
    exact leavesKeys_of_writes (fun _ => ⟨rfl, rfl⟩) rfl

theorem runnerPlan_leavesKeys {r : DeviceRequest} {d : Device} {p : Plan}
    (h : r.runnerPlan d = some (.ok p)) : ∀ w ∈ p.writes, w.LeavesKeys := by
  unfold DeviceRequest.runnerPlan at h
  split at h
  · cases h
  · cases h
    exact leavesKeys_of_writes (fun _ => ⟨rfl, rfl⟩) rfl
  · cases h

theorem plan_kinds {r : DeviceRequest} {d : Device} {p : Plan} (h : r.plan d = some (.ok p)) :
    (r.ChangesCredential ∧
      ((∃ provider apiKey createdAt updatedAt, p.Puts provider apiKey createdAt updatedAt) ∨
        ∃ provider now, p.Removes provider now)) ∨
      ∀ w ∈ p.writes, w.LeavesKeys := by
  unfold DeviceRequest.plan at h
  split at h
  · obtain ⟨json, _, hp⟩ := of_bind_ok (Option.some.inj h)
    exact .inr (setModels_leavesKeys hp)
  split at h
  · obtain ⟨json, _, hp⟩ := of_bind_ok (Option.some.inj h)
    exact .inr (setProvider_leavesKeys hp)
  split at h
  · exact .inr (removeProvider_leavesKeys (Option.some.inj h))
  split at h
  · rename_i hput
    obtain ⟨json, _, hp⟩ := of_bind_ok (Option.some.inj h)
    exact .inl ⟨.inl hput, .inl (setCredential_puts hp)⟩
  split at h
  · rename_i hdelete
    exact .inl ⟨.inr hdelete, .inr (removeCredential_removes (Option.some.inj h))⟩
  · exact .inr (runnerPlan_leavesKeys h)

theorem plan_of_changesCredential {r : DeviceRequest} (hr : r.ChangesCredential) {d : Device}
    {p : Plan} (h : r.plan d = some (.ok p)) :
    (∃ provider apiKey createdAt updatedAt, p.Puts provider apiKey createdAt updatedAt) ∨
      ∃ provider now, p.Removes provider now := by
  rcases plan_changesCredential hr d with hplan | hplan
  · rw [hplan] at h
    obtain ⟨json, _, hp⟩ := of_bind_ok (Option.some.inj h)
    exact .inl (setCredential_puts hp)
  · rw [hplan] at h
    exact .inr (removeCredential_removes (Option.some.inj h))

/-! An error -/

/-- Three writes to three stores: none of them hides another one. -/
theorem sameEntries_three_iff {d : Device} {a b c : Write}
    {f : List Secret → List Secret} {g : List Credential → List Credential}
    {h : ProviderTable → ProviderTable} (ha : ∀ e, a.apply e = { e with secrets := f e.secrets })
    (hb : ∀ e, b.apply e = { e with credentials := g e.credentials })
    (hc : ∀ e, c.apply e = { e with providers := h e.providers }) (n : Nat) (file : Option Json) :
    SameEntries d { d.perform ([a, b, c].take n) with file } ↔
      ∀ w ∈ [a, b, c].take n, SameEntries d (w.apply d) := by
  match n with
  | 0 => exact ⟨fun _ w hw => (by cases hw), fun _ => ⟨fun _ => rfl, fun _ => rfl, fun _ => rfl⟩⟩
  | 1 =>
    simp only [List.take_succ_cons, List.take_zero, perform_cons, perform_nil,
      List.forall_mem_cons, List.not_mem_nil, false_implies, implies_true, and_true, ha]
    exact ⟨fun hs => ⟨hs.secrets, fun _ => rfl, fun _ => rfl⟩,
      fun hs => ⟨hs.secrets, fun _ => rfl, fun _ => rfl⟩⟩
  | 2 =>
    simp only [List.take_succ_cons, List.take_zero, perform_cons, perform_nil,
      List.forall_mem_cons, List.not_mem_nil, false_implies, implies_true, and_true, ha, hb]
    exact ⟨fun hs => ⟨⟨hs.secrets, fun _ => rfl, fun _ => rfl⟩,
        fun _ => rfl, hs.credentials, fun _ => rfl⟩,
      fun hs => ⟨hs.1.secrets, hs.2.credentials, fun _ => rfl⟩⟩
  | n + 3 =>
    simp only [List.take_succ_cons, List.take_nil, perform_cons, perform_nil,
      List.forall_mem_cons, List.not_mem_nil, false_implies, implies_true, and_true, ha, hb, hc]
    exact ⟨fun hs => ⟨⟨hs.secrets, fun _ => rfl, fun _ => rfl⟩,
        ⟨fun _ => rfl, hs.credentials, fun _ => rfl⟩, fun _ => rfl, fun _ => rfl, hs.settings⟩,
      fun hs => ⟨hs.1.secrets, hs.2.1.credentials, hs.2.2.settings⟩⟩

theorem torn_eq_take (p : Plan) (d : Device) (fault : Option Nat) :
    ∃ n, p.torn d fault = p.writes.take n := by
  unfold Plan.torn
  split
  · split
    · exact ⟨0, rfl⟩
    · exact ⟨p.writes.length, List.take_length.symm⟩
  · exact ⟨_, rfl⟩

/-- An error leaves the entries as they were exactly when the change is not torn. -/
theorem error_sameEntries_iff {d : Device} {r : DeviceRequest} (hr : r.ChangesCredential)
    {fault : Option Nat} {reply : Reply} {after : Device}
    (h : d.handle r fault = some (reply, after)) :
    (reply.success = false → SameEntries d after) ↔ Untorn d r fault := by
  unfold Device.handle at h
  split at h
  · cases h
  · rename_i answer hplan
    obtain ⟨-, rfl⟩ := Prod.mk.inj (Option.some.inj h)
    refine ⟨fun _ p hp => ?_, fun _ _ => .refl d⟩
    rw [hplan] at hp
    cases hp
  · rename_i p hplan
    have huntorn : Untorn d r fault ↔ ∀ w ∈ p.torn d fault, SameEntries d (w.apply d) := by
      unfold Untorn
      rw [hplan]
      exact ⟨fun hall => hall p rfl, fun hall q hq => by cases hq; exact hall⟩
    rw [huntorn]
    obtain ⟨reply', after'⟩ := id (Prod.mk.inj (Option.some.inj h))
    rcases run_effects_cases p d fault with ⟨file, hrun, htorn⟩ | ⟨file, hrun⟩
    · have hsuccess : reply.success = true := by
        rw [← reply', hrun, if_pos rfl]
        rcases plan_of_changesCredential hr hplan with ⟨_, _, _, _, hp⟩ | ⟨_, _, hp⟩
        · exact hp.success _
        · exact hp.success _
      rw [hsuccess, htorn]
      exact ⟨fun _ w hw => (by cases hw), fun _ hno => (by cases hno)⟩
    · have hfailed : reply.success = false := by
        rw [← reply', hrun]
        rfl
      rw [hfailed, ← after', hrun]
      obtain ⟨n, hn⟩ := torn_eq_take p d fault
      simp only [forall_const, hn]
      rcases plan_of_changesCredential hr hplan with ⟨provider, _, _, updatedAt, hp⟩ |
        ⟨provider, now, hp⟩
      · rw [hp.writes]
        exact sameEntries_three_iff (h := fun t => t.upsert ⟨provider, true, updatedAt⟩)
          (fun _ => rfl) (fun _ => rfl) (fun _ => rfl) n file
      · rw [hp.writes]
        exact sameEntries_three_iff (h := fun t => t.upsert ⟨provider, false, now⟩)
          (fun _ => rfl) (fun _ => rfl) (fun _ => rfl) n file

/-! Runs -/

/-- A provider is listed exactly where a key of it is stored, by that key's preview. -/
structure Listed (d : Device) : Prop where
  unique : (d.credentials.map Credential.provider).Nodup
  stored : ∀ provider,
    (Rows.get Credential.provider provider d.credentials).map Credential.apiKeyPreview =
      (Rows.get Secret.account provider d.secrets).map fun secret => maskApiKey secret.value

/-- What the listing shows is what is stored. -/
theorem Listed.mem_listCredentials {d : Device} (h : Listed d) {provider preview : Bytes} :
    (provider, preview) ∈ d.listCredentials ↔
      ∃ secret, Rows.get Secret.account provider d.secrets = some secret ∧
        preview = maskApiKey secret.value := by
  constructor
  · intro hmem
    obtain ⟨credential, hcredential, heq⟩ := List.mem_map.mp hmem
    obtain ⟨rfl, rfl⟩ := Prod.mk.inj heq
    have hstored := h.stored credential.provider
    rw [Rows.get_of_mem Credential.provider h.unique hcredential, Option.map_some] at hstored
    obtain ⟨secret, hsecret, hmask⟩ := Option.map_eq_some_iff.mp hstored.symm
    exact ⟨secret, hsecret, by rw [← hmask, previewForOutput_maskApiKey]⟩
  · rintro ⟨secret, hsecret, rfl⟩
    have hstored := h.stored provider
    rw [hsecret, Option.map_some] at hstored
    obtain ⟨credential, hcredential, hmask⟩ := Option.map_eq_some_iff.mp hstored
    refine List.mem_map.mpr ⟨credential, Rows.mem_of_get Credential.provider hcredential, ?_⟩
    rw [hmask, previewForOutput_maskApiKey, Rows.key_of_get Credential.provider hcredential]

theorem Listed.of_keys {d e : Device} (h : Listed d) (hsecrets : e.secrets = d.secrets)
    (hcredentials : e.credentials = d.credentials) : Listed e where
  unique := hcredentials ▸ h.unique
  stored := by
    rw [hsecrets, hcredentials]
    exact h.stored

theorem unique_perform {d : Device} (h : (d.credentials.map Credential.provider).Nodup)
    (writes : List Write) : ((d.perform writes).credentials.map Credential.provider).Nodup := by
  refine perform_induction (I := fun e => (e.credentials.map Credential.provider).Nodup)
    (fun w _ e he => ?_) h
  cases w with
  | setCredential credential => exact Rows.nodup_put Credential.provider he
  | removeCredential provider => exact Rows.nodup_drop Credential.provider he
  | _ => exact he

theorem Listed.put {d : Device} (h : Listed d) {p : Plan} {provider apiKey : Bytes}
    {createdAt updatedAt : Int64} (hp : p.Puts provider apiKey createdAt updatedAt) :
    Listed (d.perform p.writes) where
  unique := unique_perform h.unique _
  stored other := by
    rw [hp.writes]
    simp only [perform_cons, perform_nil, Write.apply, Rows.get_put]
    split
    · rfl
    · exact h.stored other

theorem Listed.remove {d : Device} (h : Listed d) {p : Plan} {provider : Bytes} {now : Int64}
    (hp : p.Removes provider now) : Listed (d.perform p.writes) where
  unique := unique_perform h.unique _
  stored other := by
    rw [hp.writes]
    simp only [perform_cons, perform_nil, Write.apply, Rows.get_drop]
    split
    · rfl
    · exact h.stored other

theorem Listed.leave {d : Device} (h : Listed d) {writes : List Write}
    (hw : ∀ w ∈ writes, w.LeavesKeys) : Listed (d.perform writes) :=
  perform_induction (I := Listed) (fun w hmem e he => he.of_keys (hw w hmem e).1 (hw w hmem e).2) h

/-- Changes of credentials are not torn. -/
def Uncut (d : Device) : Label → Prop
  | .request r fault => r.ChangesCredential → Untorn d r fault
  | .restart => True

theorem Listed.handle {d : Device} (h : Listed d) {r : DeviceRequest} {fault : Option Nat}
    (hok : r.ChangesCredential → Untorn d r fault) {reply : Reply} {after : Device}
    (hhandle : d.handle r fault = some (reply, after)) : Listed after := by
  have herror := fun hr => (error_sameEntries_iff hr hhandle).mpr (hok hr)
  unfold Device.handle at hhandle
  split at hhandle
  · cases hhandle
  · cases hhandle
    exact h
  · rename_i p hplan
    obtain ⟨hreply, hafter⟩ := Prod.mk.inj (Option.some.inj hhandle)
    rcases run_effects_cases p d fault with ⟨file, hrun, -⟩ | ⟨file, hrun⟩
    · rw [← hafter, hrun]
      have hwritten : Listed (d.perform p.writes) := by
        rcases plan_kinds hplan with ⟨-, ⟨_, _, _, _, hp⟩ | ⟨_, _, hp⟩⟩ | hleaves
        · exact h.put hp
        · exact h.remove hp
        · exact h.leave hleaves
      exact hwritten.of_keys rfl rfl
    · rcases plan_kinds hplan with ⟨hr, -⟩ | hleaves
      · have hfailed : reply.success = false := by
          rw [← hreply, hrun]
          rfl
        have hsame := herror hr hfailed
        refine ⟨?_, fun provider => ?_⟩
        · rw [← hafter, hrun]
          exact unique_perform h.unique _
        · rw [hsame.credentials, hsame.secrets]
          exact h.stored provider
      · rw [← hafter, hrun]
        obtain ⟨n, hn⟩ := torn_eq_take p d fault
        have htorn : Listed (d.perform (p.torn d fault)) := by
          rw [hn]
          exact h.leave fun w hw => hleaves w (List.mem_of_mem_take hw)
        exact htorn.of_keys rfl rfl

theorem initializeDeviceConfig_keys {d e : Device} (h : initializeDeviceConfig d = some e) :
    e.secrets = d.secrets ∧ e.credentials = d.credentials := by
  unfold initializeDeviceConfig at h
  dsimp only at h
  split at h
  · rename_i body _
    cases hrestore : restore body { d with configured := true } with
    | error text =>
      rw [hrestore] at h
      cases h
    | ok restored =>
      rw [hrestore] at h
      cases h
      unfold restore at hrestore
      obtain ⟨_, _, hrestore⟩ := of_bind_ok hrestore
      obtain ⟨_, _, hrestore⟩ := of_bind_ok hrestore
      obtain ⟨_, _, hrestore⟩ := of_bind_ok hrestore
      obtain ⟨_, _, hrestore⟩ := of_bind_ok hrestore
      cases hrestore
      exact ⟨rfl, rfl⟩
  · unfold writeSnapshot at h
    split at h
    · cases h
      exact ⟨rfl, rfl⟩
    · cases h

theorem Listed.step {s t : Served} {l : Label} (h : Listed s.device) (hok : Uncut s.device l)
    (hstep : s.step l = some t) : Listed t.device := by
  cases l with
  | request r fault =>
    obtain ⟨⟨reply, after⟩, hhandle, rfl⟩ := Option.map_eq_some_iff.mp hstep
    exact h.handle hok hhandle
  | restart =>
    obtain ⟨device, hdevice, rfl⟩ := Option.map_eq_some_iff.mp hstep
    obtain ⟨hsecrets, hcredentials⟩ := initializeDeviceConfig_keys hdevice
    exact h.of_keys hsecrets hcredentials

theorem validUtf8_nil : validUtf8 [] = true := rfl

theorem encodable_putKey {apiKey : String} (h : validUtf8 (ascii apiKey) = true) :
    (Json.obj [(ascii "api_key", .str (ascii apiKey)),
      (ascii "provider", .str (ascii "openai"))]).encodable = true := by
  have hkeys : validUtf8 (ascii "api_key") = true ∧ validUtf8 (ascii "provider") = true ∧
      validUtf8 (ascii "openai") = true := by
    decide
  simp [Json.encodable, Json.encodableFields, h, hkeys]

/-- PUT /ai/providers/credentials. -/
def putKey (apiKey : String) (h : validUtf8 (ascii apiKey) = true) : DeviceRequest where
  method := .put
  path := credentialsPath
  body := .ok ⟨.obj [(ascii "api_key", .str (ascii apiKey)),
      (ascii "provider", .str (ascii "openai"))], encodable_putKey h⟩
  uuid := []
  uuidUtf8 := validUtf8_nil
  now := 7

/-- DELETE /ai/providers/credentials/openai. -/
def deleteKey : DeviceRequest where
  method := .delete
  path := credentialsPath ++ slash ++ ascii "openai"
  body := .error []
  uuid := []
  uuidUtf8 := validUtf8_nil
  now := 8

def firstKey : DeviceRequest := putKey "sk-first-key" (by decide)

def secondKey : DeviceRequest := putKey "sk-second-key" (by decide)

def Device.key? (d : Device) : Option Bytes :=
  (Rows.get Secret.account (ascii "openai") d.secrets).map Secret.value

theorem untorn_of_isEmpty {d : Device} {r : DeviceRequest} {fault : Option Nat}
    (h : (match r.plan d with
      | some (.ok p) => (p.torn d fault).isEmpty
      | _ => true) = true) : Untorn d r fault := by
  intro p hplan w hw
  rw [hplan] at h
  rw [List.isEmpty_iff.mp h] at hw
  cases hw

/-- The first call throws. -/
theorem untorn_zero (d : Device) (r : DeviceRequest) : Untorn d r (some 0) := by
  intro p _ w hw
  have hlong : ¬ Effects.Spares (some 0) p.effects.length := by
    intro hspares
    have hle := hspares 0 rfl
    simp only [Plan.effects, List.length_append, List.length_cons] at hle
    omega
  rw [Plan.torn, if_neg hlong, Option.getD_some, Nat.zero_sub, List.take_zero] at hw
  cases hw

end DeviceConfig

end HolderDaemon
