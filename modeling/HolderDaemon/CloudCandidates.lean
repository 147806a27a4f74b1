import HolderDaemon.CanonicalSort
import HolderDaemon.DeviceRequests
import HolderDaemon.Groups
import HolderDaemon.Rows

/-!
The providers and models that a cloud run may fall back to, in the order they are tried
(`api/support/CloudConfig.cpp`), over the configurations that the catalogue loads as.
-/

set_option autoImplicit false

open Bytes

namespace HolderDaemon

namespace CloudConfig

open CanonicalSort
open Runners (trimAscii)
open DeviceConfig (lowercaseAscii normalizeProviderName)

/-! Configurations -/

structure CloudModelConfig where
  id : Bytes
  endpoint : Bytes
  role : Bytes
  deriving DecidableEq

structure CloudProviderConfig where
  id : Bytes
  costTier : Bytes := []
  models : List CloudModelConfig := []
  deriving DecidableEq

structure CloudProvidersConfig where
  providerOrder : List Bytes
  providers : List CloudProviderConfig

/-- A node of `models.Models.Cloud`: what it gives, where it gives it. -/
structure ModelNode where
  providerId : Option Bytes := none
  providerCostTier : Option Bytes := none
  modelId : Option Bytes := none
  endpoint : Option Bytes := none
  role : Option Bytes := none

def ModelNode.provider (node : ModelNode) : Bytes :=
  normalizeProviderName (node.providerId.getD [])

def ModelNode.isOf (id : Bytes) (node : ModelNode) : Bool := node.provider = id

/-- The model of a node that has both an id and an endpoint. -/
def ModelNode.model (node : ModelNode) : Option CloudModelConfig :=
  match node.modelId, node.endpoint with
  | some id, some endpoint => some ⟨id, endpoint, node.role.getD []⟩
  | _, _ => none

/-- A provider on its first encounter. `costTier` is that of `provider_defaults`. -/
def newProvider (costTier : Option Bytes) (node : ModelNode) : CloudProviderConfig where
  id := node.provider
  costTier := (node.providerCostTier.or costTier).getD []

/-- What every node does to its provider: fill in the cost tier, replace or add the model. -/
def updateProvider (costTier : Option Bytes) (provider : CloudProviderConfig) (node : ModelNode) :
    CloudProviderConfig :=
  { provider with
    costTier := if provider.costTier = [] then (node.providerCostTier.or costTier).getD []
      else provider.costTier
    models := match node.model with
      | some model => Rows.put CloudModelConfig.id model provider.models
      | none => provider.models }

def loadNode (defaults : Bytes → Option Bytes) (providers : List CloudProviderConfig)
    (node : ModelNode) : List CloudProviderConfig :=
  let id := node.provider
  if id = [] then providers
  else
    let provider := (Rows.get CloudProviderConfig.id id providers).getD
      (newProvider (defaults id) node)
    Rows.put CloudProviderConfig.id (updateProvider (defaults id) provider node) providers

/-- `defaults` gives the cost tier of a provider's entry in `provider_defaults`. -/
def loadCloudprovidersConfig (defaults : Bytes → Option Bytes) (order : List Bytes)
    (nodes : List ModelNode) : CloudProvidersConfig where
  providerOrder := (order.map normalizeProviderName).filter fun id => id ≠ []
  providers := nodes.foldl (loadNode defaults) []

/-! Candidates -/

def costTierRank (costTier : Bytes) : Int :=
  let tier := lowercaseAscii (trimAscii costTier)
  if tier = ascii "free" then 0
  else if tier = ascii "low" then 1
  else if tier = ascii "paid" then 2
  else 3

def findCloudProvider (cfg : CloudProvidersConfig) (id : Bytes) : Option CloudProviderConfig :=
  Rows.get CloudProviderConfig.id id cfg.providers

def findCloudModel (provider : CloudProviderConfig) (id : Bytes) : Option CloudModelConfig :=
  Rows.get CloudModelConfig.id id provider.models

def isDefault (model : CloudModelConfig) : Bool := model.role = ascii "default"

def isCompact (model : CloudModelConfig) : Bool := model.role = ascii "compact"

/-- The first model with the role `default`, or else the first. -/
def chooseDefault (provider : CloudProviderConfig) : Option CloudModelConfig :=
  (provider.models.find? isDefault).or provider.models.head?

def chooseCloudModel (provider : CloudProviderConfig) (requested : Bytes) :
    Option CloudModelConfig :=
  if requested = [] then chooseDefault provider
  else (findCloudModel provider requested).or (chooseDefault provider)

section Push
variable {α : Type} (id : α → Bytes)

/-- The list `out` and the set `seen`. -/
structure Offered (α : Type) where
  out : List α := []
  seen : List Bytes := []

def push (offered : Offered α) (candidate : α) : Offered α :=
  if id candidate ∈ offered.seen then offered
  else { out := offered.out ++ [candidate], seen := offered.seen ++ [id candidate] }

/-- `push` of a pointer that may be null. -/
def push? (offered : Offered α) (candidate : Option α) : Offered α :=
  match candidate with
  | none => offered
  | some a => push id offered a

end Push

def cloudModelCandidates (provider : CloudProviderConfig) (requested : Bytes) :
    List CloudModelConfig :=
  let asked : Offered CloudModelConfig :=
    if requested = [] then {}
    else push? CloudModelConfig.id {} (findCloudModel provider requested)
  let chosen := push? CloudModelConfig.id asked (chooseCloudModel provider [])
  let compact := (provider.models.filter isCompact).foldl (push CloudModelConfig.id) chosen
  (provider.models.foldl (push CloudModelConfig.id) compact).out

/-- By the rank of the cost tier, then by id. -/
def before : CloudProviderConfig → CloudProviderConfig → Bool :=
  thenBy (fun x y : Int => x < y) (fun provider => costTierRank provider.costTier)
    (byKey (fun x y : Bytes => x < y) CloudProviderConfig.id)

def orderedCloudProviders (cfg : CloudProvidersConfig) : List CloudProviderConfig :=
  let named := cfg.providerOrder.foldl
    (fun offered id => push? CloudProviderConfig.id offered (findCloudProvider cfg id)) {}
  let remaining := cfg.providers.filter fun provider => provider.id ∉ named.seen
  ((stableSort before remaining).foldl (push CloudProviderConfig.id) named).out

/-! Pushing -/

section Pushing
variable {α : Type} {id : α → Bytes}

/-- The set holds the ids of the list. -/
def Offered.Tracks (id : α → Bytes) (offered : Offered α) : Prop :=
  offered.seen = offered.out.map id

theorem tracks_push {offered : Offered α} (h : offered.Tracks id) (a : α) :
    (push id offered a).Tracks id := by
  unfold push
  split
  · exact h
  · simp only [Offered.Tracks, List.map_append, List.map_singleton]
    rw [h]

theorem tracks_push? {offered : Offered α} (h : offered.Tracks id) (a : Option α) :
    (push? id offered a).Tracks id := by
  cases a with
  | none => exact h
  | some a => exact tracks_push h a

theorem tracks_new : ({} : Offered α).Tracks id := rfl

/-- The members of a list whose ids are not taken yet. -/
def without (id : α → Bytes) (taken l : List α) : List α := l.filter fun a => id a ∉ taken.map id

theorem without_taken {taken : List α} {a : α} (h : id a ∈ taken.map id) :
    without id taken [a] = [] := by
  rw [without, List.filter_cons_of_neg (by simpa using h), List.filter_nil]

theorem without_free {taken : List α} {a : α} (h : id a ∉ taken.map id) :
    without id taken [a] = [a] := by
  rw [without, List.filter_cons_of_pos (by simpa using h), List.filter_nil]

theorem out_push? {offered : Offered α} (h : offered.Tracks id) (a : Option α) :
    (push? id offered a).out = offered.out ++ without id offered.out a.toList := by
  cases a with
  | none => simp [push?, without]
  | some a =>
    rw [push?, push, h, Option.toList_some]
    by_cases hmem : id a ∈ offered.out.map id
    · rw [if_pos hmem, without_taken hmem, List.append_nil]
    · rw [if_neg hmem, without_free hmem]

/-- Candidates of different ids are added unless their ids are there already. -/
theorem foldl_push {offered : Offered α} (h : offered.Tracks id) {l : List α}
    (hl : (l.map id).Nodup) :
    (l.foldl (push id) offered).Tracks id ∧
      (l.foldl (push id) offered).out = offered.out ++ without id offered.out l := by
  induction l generalizing offered with
  | nil => exact ⟨h, by simp [without]⟩
  | cons a l ih =>
    obtain ⟨ha, hl⟩ := List.nodup_cons.mp hl
    obtain ⟨htracks, hout⟩ := ih (tracks_push h a) hl
    refine ⟨htracks, ?_⟩
    rw [List.foldl_cons, hout, push, h]
    by_cases hmem : id a ∈ offered.out.map id
    · rw [if_pos hmem, without, without, List.filter_cons_of_neg (by simpa using hmem)]
    · have hrest : without id (offered.out ++ [a]) l = without id offered.out l := by
        refine List.filter_congr fun b hb => ?_
        have hne : id b ≠ id a := fun heq => ha (heq ▸ List.mem_map_of_mem hb)
        simp [hne]
      rw [if_neg hmem, hrest, without, without, List.filter_cons_of_pos (by simpa using hmem)]
      simp

theorem mem_without {taken l : List α} {a : α} :
    a ∈ without id taken l ↔ a ∈ l ∧ id a ∉ taken.map id := by
  simp [without]

theorem subset_append_without (id : α → Bytes) {taken l all : List α} (ht : ∀ a ∈ taken, a ∈ all)
    (hl : ∀ a ∈ l, a ∈ all) : ∀ a ∈ taken ++ without id taken l, a ∈ all := by
  intro a ha
  rcases List.mem_append.mp ha with ha | ha
  · exact ht a ha
  · exact hl a (mem_without.mp ha).1

/-- Where some of a list come first, all of it is there in the end. -/
theorem mem_append_without {taken l : List α} (hl : (l.map id).Nodup) (ht : ∀ a ∈ taken, a ∈ l)
    {a : α} : a ∈ taken ++ without id taken l ↔ a ∈ l := by
  refine ⟨subset_append_without id ht (fun _ h => h) a, fun ha => ?_⟩
  rw [List.mem_append]
  by_cases htaken : id a ∈ taken.map id
  · obtain ⟨b, hb, hid⟩ := List.mem_map.mp htaken
    rw [← List.inj_on_of_nodup_map hl (ht b hb) ha hid]
    exact .inl hb
  · exact .inr (mem_without.mpr ⟨ha, htaken⟩)

theorem nodup_append_without {taken l : List α} (ht : (taken.map id).Nodup)
    (hl : (l.map id).Nodup) : ((taken ++ without id taken l).map id).Nodup := by
  rw [List.map_append]
  refine List.nodup_append.mpr ⟨ht, hl.sublist (List.filter_sublist.map id), ?_⟩
  rintro k hk k' hk' rfl
  obtain ⟨a, ha, rfl⟩ := List.mem_map.mp hk'
  exact (mem_without.mp ha).2 hk

end Pushing

/-! Models -/

/-- The requested model, where one is requested and configured. -/
def requestedModel (provider : CloudProviderConfig) (requested : Bytes) : List CloudModelConfig :=
  if requested = [] then [] else (findCloudModel provider requested).toList

/-- The groups of candidates from left to right, each without those before it. -/
def modelGroups (provider : CloudProviderConfig) (requested : Bytes) : List CloudModelConfig :=
  let asked := requestedModel provider requested
  let chosen := asked ++ without CloudModelConfig.id asked (chooseDefault provider).toList
  let compact := chosen ++ without CloudModelConfig.id chosen (provider.models.filter isCompact)
  compact ++ without CloudModelConfig.id compact provider.models

theorem nodup_toList {α : Type} (id : α → Bytes) (a : Option α) : (a.toList.map id).Nodup := by
  cases a with
  | none => exact List.nodup_nil
  | some a => exact List.nodup_singleton _

theorem cloudModelCandidates_eq {provider : CloudProviderConfig}
    (h : (provider.models.map CloudModelConfig.id).Nodup) (requested : Bytes) :
    cloudModelCandidates provider requested = modelGroups provider requested := by
  have hasked : ∀ asked : Offered CloudModelConfig,
      asked = (if requested = [] then {}
        else push? CloudModelConfig.id {} (findCloudModel provider requested)) →
      asked.Tracks CloudModelConfig.id ∧ asked.out = requestedModel provider requested := by
    rintro asked rfl
    unfold requestedModel
    split
    · exact ⟨tracks_new, rfl⟩
    · exact ⟨tracks_push? tracks_new _, by rw [out_push? tracks_new]; simp [without]⟩
  unfold cloudModelCandidates modelGroups
  generalize hoffered : (if requested = [] then ({} : Offered CloudModelConfig)
    else push? CloudModelConfig.id {} (findCloudModel provider requested)) = asked
  obtain ⟨htracks, hout⟩ := hasked asked hoffered.symm
  have hdefault : chooseCloudModel provider [] = chooseDefault provider := if_pos rfl
  have hchosen := tracks_push? htracks (chooseDefault provider)
  obtain ⟨hcompact, hcompactOut⟩ :=
    foldl_push hchosen (h.sublist (List.filter_sublist (p := isCompact).map CloudModelConfig.id))
  obtain ⟨-, hall⟩ := foldl_push hcompact h
  simp only [hdefault, hall, hcompactOut, out_push? htracks, hout]

theorem chooseDefault_mem {provider : CloudProviderConfig} {model : CloudModelConfig}
    (h : chooseDefault provider = some model) : model ∈ provider.models := by
  rcases Option.or_eq_some_iff.mp h with hfound | ⟨-, hhead⟩
  · exact List.mem_of_find?_eq_some hfound
  · exact List.mem_of_head? hhead

theorem nodup_modelGroups {provider : CloudProviderConfig}
    (h : (provider.models.map CloudModelConfig.id).Nodup) (requested : Bytes) :
    ((modelGroups provider requested).map CloudModelConfig.id).Nodup := by
  have hasked : ((requestedModel provider requested).map CloudModelConfig.id).Nodup := by
    unfold requestedModel
    split
    · exact List.nodup_nil
    · exact nodup_toList _ _
  have hchosen := nodup_append_without hasked (nodup_toList CloudModelConfig.id
    (chooseDefault provider))
  have hcompact := nodup_append_without hchosen
    (h.sublist (List.filter_sublist (p := isCompact).map CloudModelConfig.id))
  exact nodup_append_without hcompact h

theorem mem_modelGroups {provider : CloudProviderConfig}
    (h : (provider.models.map CloudModelConfig.id).Nodup) (requested : Bytes)
    {model : CloudModelConfig} :
    model ∈ modelGroups provider requested ↔ model ∈ provider.models := by
  have hasked : ∀ m ∈ requestedModel provider requested, m ∈ provider.models := by
    intro m hm
    unfold requestedModel at hm
    split at hm
    · cases hm
    · exact Rows.mem_of_get _ (Option.mem_toList.mp hm)
  have hchosen := subset_append_without CloudModelConfig.id hasked
    fun m hm => chooseDefault_mem (Option.mem_toList.mp hm)
  have hcompact := subset_append_without CloudModelConfig.id hchosen
    fun m hm => (List.mem_filter (p := isCompact).mp hm).1
  exact mem_append_without h hcompact

theorem modelGroups_perm {provider : CloudProviderConfig}
    (h : (provider.models.map CloudModelConfig.id).Nodup) (requested : Bytes) :
    (modelGroups provider requested).Perm provider.models :=
  (List.perm_ext_iff_of_nodup (nodup_modelGroups h requested).of_map h.of_map).mpr fun _ =>
    mem_modelGroups h requested

/-! Providers -/

theorem weak_before : Weak before := weak_thenBy (linear_lt Int) (weak_byKey (linear_lt Bytes))

theorem id_of_ties {a b : CloudProviderConfig} (h : Ties before a b) : a.id = b.id :=
  (ties_byKey (linear_lt Bytes)).mp ((ties_thenBy (linear_lt Int)).mp h).2

/-- Those named in the order, each where it is mentioned first. -/
def namedProviders (cfg : CloudProvidersConfig) : List CloudProviderConfig :=
  (Assoc.firsts cfg.providerOrder).filterMap (findCloudProvider cfg)

def unnamedProviders (cfg : CloudProvidersConfig) : List CloudProviderConfig :=
  cfg.providers.filter fun provider => provider.id ∉ cfg.providerOrder

theorem push_named (cfg : CloudProvidersConfig) (order : List Bytes) :
    let named := order.foldl
      (fun offered id => push? CloudProviderConfig.id offered (findCloudProvider cfg id)) {}
    named.Tracks CloudProviderConfig.id ∧
      named.out = (Assoc.firsts order).filterMap (findCloudProvider cfg) := by
  induction order using List.reverseRecOn with
  | nil => exact ⟨rfl, rfl⟩
  | append_singleton order id ih =>
    obtain ⟨htracks, hout⟩ := ih
    simp only [List.foldl_append, List.foldl_cons, List.foldl_nil]
    refine ⟨tracks_push? htracks _, ?_⟩
    rw [out_push? htracks, hout, Assoc.firsts_concat, Assoc.addNew]
    cases hfind : findCloudProvider cfg id with
    | none =>
      split
      · simp [without]
      · simp [without, hfind]
    | some provider =>
      have hid := Rows.key_of_get _ hfind
      by_cases hmem : id ∈ Assoc.firsts order
      · have htaken : provider.id ∈
            ((Assoc.firsts order).filterMap (findCloudProvider cfg)).map CloudProviderConfig.id :=
          List.mem_map_of_mem (List.mem_filterMap.mpr ⟨id, hmem, hfind⟩)
        rw [if_pos hmem, Option.toList_some, without_taken htaken, List.append_nil]
      · have hfree : provider.id ∉
            ((Assoc.firsts order).filterMap (findCloudProvider cfg)).map
              CloudProviderConfig.id := by
          intro hin
          obtain ⟨other, hother, heq⟩ := List.mem_map.mp hin
          obtain ⟨k, hk, hfound⟩ := List.mem_filterMap.mp hother
          have hkey := Rows.key_of_get _ hfound
          exact hmem (((hkey.symm.trans heq).trans hid) ▸ hk)
        rw [if_neg hmem, List.filterMap_append, Option.toList_some, without_free hfree]
        simp [hfind]

theorem orderedCloudProviders_eq {cfg : CloudProvidersConfig}
    (h : (cfg.providers.map CloudProviderConfig.id).Nodup) :
    orderedCloudProviders cfg =
      namedProviders cfg ++ stableSort before (unnamedProviders cfg) := by
  obtain ⟨htracks, hout⟩ := push_named cfg cfg.providerOrder
  unfold orderedCloudProviders
  generalize cfg.providerOrder.foldl (fun offered id =>
    push? CloudProviderConfig.id offered (findCloudProvider cfg id)) {} = named at htracks hout
  have hseen : ∀ provider ∈ cfg.providers,
      provider.id ∈ named.seen ↔ provider.id ∈ cfg.providerOrder := by
    intro provider hprovider
    rw [htracks, hout, ← Assoc.mem_firsts (l := cfg.providerOrder)]
    constructor
    · intro hin
      obtain ⟨other, hother, heq⟩ := List.mem_map.mp hin
      obtain ⟨k, hk, hfound⟩ := List.mem_filterMap.mp hother
      exact ((Rows.key_of_get _ hfound).symm.trans heq) ▸ hk
    · intro hin
      exact List.mem_map.mpr ⟨provider, List.mem_filterMap.mpr
        ⟨provider.id, hin, Rows.get_of_mem _ h hprovider⟩, rfl⟩
  have hremaining : (cfg.providers.filter fun provider => provider.id ∉ named.seen) =
      unnamedProviders cfg :=
    List.filter_congr fun provider hprovider =>
      decide_eq_decide.mpr (not_congr (hseen provider hprovider))
  have hnodup : ((stableSort before (unnamedProviders cfg)).map CloudProviderConfig.id).Nodup :=
    ((stableSort_perm _ _).map _).nodup_iff.mpr (h.sublist (List.filter_sublist.map _))
  have hfree : without CloudProviderConfig.id named.out (stableSort before (unnamedProviders cfg)) =
      stableSort before (unnamedProviders cfg) := by
    refine List.filter_eq_self.mpr fun provider hmem => ?_
    obtain ⟨hprovider, hnot⟩ := List.mem_filter.mp (mem_stableSort.mp hmem)
    rw [← htracks, decide_eq_true_iff, hseen provider hprovider]
    exact of_decide_eq_true hnot
  dsimp only
  rw [hremaining, (foldl_push htracks hnodup).2, hfree, hout, namedProviders]

theorem mem_namedProviders {cfg : CloudProvidersConfig}
    (h : (cfg.providers.map CloudProviderConfig.id).Nodup) {provider : CloudProviderConfig} :
    provider ∈ namedProviders cfg ↔
      provider ∈ cfg.providers ∧ provider.id ∈ cfg.providerOrder := by
  rw [namedProviders, List.mem_filterMap]
  constructor
  · rintro ⟨id, hid, hfound⟩
    rw [Assoc.mem_firsts] at hid
    exact ⟨Rows.mem_of_get _ hfound, (Rows.key_of_get _ hfound) ▸ hid⟩
  · rintro ⟨hprovider, hid⟩
    exact ⟨provider.id, Assoc.mem_firsts.mpr hid, Rows.get_of_mem _ h hprovider⟩

theorem nodup_namedProviders (cfg : CloudProvidersConfig) :
    ((namedProviders cfg).map CloudProviderConfig.id).Nodup := by
  obtain ⟨htracks, hout⟩ := push_named cfg cfg.providerOrder
  have hsub : ((namedProviders cfg).map CloudProviderConfig.id).Sublist
      (Assoc.firsts cfg.providerOrder) := by
    rw [namedProviders]
    generalize Assoc.firsts cfg.providerOrder = order
    induction order with
    | nil => exact List.Sublist.slnil
    | cons id order ih =>
      rw [List.filterMap_cons]
      split
      · exact ih.cons id
      · rename_i provider hfound
        rw [List.map_cons, Rows.key_of_get _ hfound]
        exact ih.cons_cons id
  exact (Assoc.nodup_firsts _).sublist hsub

theorem orderedCloudProviders_perm {cfg : CloudProvidersConfig}
    (h : (cfg.providers.map CloudProviderConfig.id).Nodup) :
    (orderedCloudProviders cfg).Perm cfg.providers := by
  rw [orderedCloudProviders_eq h]
  refine ((stableSort_perm before _).append_left _).trans ?_
  have hnodup : (namedProviders cfg ++ unnamedProviders cfg).Nodup := by
    refine List.nodup_append.mpr ⟨(nodup_namedProviders cfg).of_map, h.of_map.filter _, ?_⟩
    rintro a ha b hb rfl
    exact of_decide_eq_true (List.mem_filter.mp hb).2 ((mem_namedProviders h).mp ha).2
  refine (List.perm_ext_iff_of_nodup hnodup h.of_map).mpr fun provider => ?_
  rw [List.mem_append, mem_namedProviders h, unnamedProviders, List.mem_filter,
    decide_eq_true_iff]
  tauto

/-- The order of the list of providers leaves no trace. -/
theorem orderedCloudProviders_congr {cfg : CloudProvidersConfig}
    (h : (cfg.providers.map CloudProviderConfig.id).Nodup)
    {providers : List CloudProviderConfig} (hperm : cfg.providers.Perm providers) :
    orderedCloudProviders { cfg with providers := providers } = orderedCloudProviders cfg := by
  have h' : (providers.map CloudProviderConfig.id).Nodup := (hperm.map _).nodup_iff.mp h
  have hfind : findCloudProvider { cfg with providers := providers } = findCloudProvider cfg :=
    funext fun id => (Rows.get_perm _ hperm h id).symm
  have hrest : (unnamedProviders cfg).Perm
      (unnamedProviders { cfg with providers := providers }) := hperm.filter _
  have hsorted := stableSort_eq_of_perm weak_before hrest fun a ha b hb hties =>
    List.inj_on_of_nodup_map h (List.mem_filter.mp ha).1 (List.mem_filter.mp hb).1
      (id_of_ties hties)
  have hother : orderedCloudProviders { cfg with providers } =
      namedProviders { cfg with providers } ++
        stableSort before (unnamedProviders { cfg with providers }) :=
    orderedCloudProviders_eq h'
  rw [orderedCloudProviders_eq h, hother, namedProviders, namedProviders, hfind, hsorted]

/-! Loading -/

/-- Every provider once, and every model of it once. -/
structure Distinct (providers : List CloudProviderConfig) : Prop where
  ids : (providers.map CloudProviderConfig.id).Nodup
  models : ∀ provider ∈ providers, (provider.models.map CloudModelConfig.id).Nodup

theorem distinct_loadNode (defaults : Bytes → Option Bytes)
    {providers : List CloudProviderConfig} (h : Distinct providers) (node : ModelNode) :
    Distinct (loadNode defaults providers node) := by
  unfold loadNode
  dsimp only
  split
  · exact h
  · refine ⟨Rows.nodup_put _ h.ids, fun provider hmem => ?_⟩
    rcases Rows.mem_put _ hmem with rfl | hold
    · have hbefore : (((Rows.get CloudProviderConfig.id node.provider providers).getD
          (newProvider (defaults node.provider) node)).models.map CloudModelConfig.id).Nodup := by
        cases hget : Rows.get CloudProviderConfig.id node.provider providers with
        | none => exact List.nodup_nil
        | some provider => exact h.models provider (Rows.mem_of_get _ hget)
      unfold updateProvider
      dsimp only
      split
      · exact Rows.nodup_put _ hbefore
      · exact hbefore
    · exact h.models provider hold

theorem distinct_load (defaults : Bytes → Option Bytes) (nodes : List ModelNode)
    {providers : List CloudProviderConfig} (h : Distinct providers) :
    Distinct (nodes.foldl (loadNode defaults) providers) := by
  induction nodes generalizing providers with
  | nil => exact h
  | cons node nodes ih => exact ih (distinct_loadNode defaults h node)

theorem get_loadNode (defaults : Bytes → Option Bytes) (providers : List CloudProviderConfig)
    (node : ModelNode) (id : Bytes) :
    Rows.get CloudProviderConfig.id id (loadNode defaults providers node) =
      if node.provider = id ∧ id ≠ [] then
        some (updateProvider (defaults id)
          ((Rows.get CloudProviderConfig.id id providers).getD
            (newProvider (defaults id) node)) node)
      else Rows.get CloudProviderConfig.id id providers := by
  have hkey : (updateProvider (defaults node.provider)
      ((Rows.get CloudProviderConfig.id node.provider providers).getD
        (newProvider (defaults node.provider) node)) node).id = node.provider := by
    cases hget : Rows.get CloudProviderConfig.id node.provider providers with
    | none => rfl
    | some provider =>
      have hid := Rows.key_of_get CloudProviderConfig.id hget
      exact hid
  unfold loadNode
  dsimp only
  by_cases hid : node.provider = id
  · subst hid
    by_cases hnil : node.provider = []
    · have hno : ¬ (node.provider = node.provider ∧ node.provider ≠ []) := fun h => h.2 hnil
      rw [if_pos hnil, if_neg hno]
    · rw [if_neg hnil, if_pos ⟨rfl, hnil⟩, Rows.get_put, if_pos hkey]
  · have hno : ¬ (node.provider = id ∧ id ≠ []) := fun h => hid h.1
    rw [if_neg hno]
    split
    · rfl
    · rw [Rows.get_put, if_neg fun h => hid (hkey.symm.trans h)]

/-- What is loaded of a provider is decided by its own nodes. -/
theorem get_load (defaults : Bytes → Option Bytes) (nodes : List ModelNode) (id : Bytes)
    {providers providers' : List CloudProviderConfig}
    (h : Rows.get CloudProviderConfig.id id providers =
      Rows.get CloudProviderConfig.id id providers') :
    Rows.get CloudProviderConfig.id id (nodes.foldl (loadNode defaults) providers) =
      Rows.get CloudProviderConfig.id id ((nodes.filter (ModelNode.isOf id)).foldl
        (loadNode defaults) providers') := by
  induction nodes generalizing providers providers' with
  | nil => exact h
  | cons node nodes ih =>
    by_cases hid : node.provider = id
    · have hof : node.isOf id = true := decide_eq_true hid
      rw [List.filter_cons_of_pos hof]
      refine ih ?_
      rw [get_loadNode, get_loadNode, h]
    · have hno : ¬ (node.provider = id ∧ id ≠ []) := fun hd => hid hd.1
      have hof : ¬ node.isOf id = true := fun hd => hid (of_decide_eq_true hd)
      rw [List.filter_cons_of_neg hof]
      refine ih ?_
      rw [get_loadNode, if_neg hno, h]

theorem providers_perm_of_nodes (defaults : Bytes → Option Bytes) {nodes nodes' : List ModelNode}
    (h : ∀ id, nodes.filter (ModelNode.isOf id) = nodes'.filter (ModelNode.isOf id)) :
    (nodes.foldl (loadNode defaults) []).Perm (nodes'.foldl (loadNode defaults) []) := by
  have hempty : Distinct [] := ⟨List.nodup_nil, fun _ hmem => by cases hmem⟩
  have hd := (distinct_load defaults nodes hempty).ids
  have hd' := (distinct_load defaults nodes' hempty).ids
  refine (List.perm_ext_iff_of_nodup hd.of_map hd'.of_map).mpr fun provider => ?_
  have hget : Rows.get CloudProviderConfig.id provider.id (nodes.foldl (loadNode defaults) []) =
      Rows.get CloudProviderConfig.id provider.id (nodes'.foldl (loadNode defaults) []) := by
    rw [get_load defaults nodes provider.id rfl, get_load defaults nodes' provider.id rfl, h]
  constructor
  · intro hmem
    rw [Rows.get_of_mem _ hd hmem] at hget
    exact Rows.mem_of_get _ hget.symm
  · intro hmem
    rw [Rows.get_of_mem _ hd' hmem] at hget
    exact Rows.mem_of_get _ hget

theorem ascend_unnamed {cfg : CloudProvidersConfig}
    (h : (cfg.providers.map CloudProviderConfig.id).Nodup) :
    (stableSort before (unnamedProviders cfg)).Pairwise fun a b =>
      costTierRank a.costTier < costTierRank b.costTier ∨
        (costTierRank a.costTier = costTierRank b.costTier ∧ a.id < b.id) := by
  have hids : ((stableSort before (unnamedProviders cfg)).map CloudProviderConfig.id).Nodup :=
    ((stableSort_perm _ _).map _).nodup_iff.mpr (h.sublist (List.filter_sublist.map _))
  refine ((pairwise_stableSort weak_before _).and (List.pairwise_map.mp hids)).imp ?_
  rintro a b ⟨hab, hne⟩
  rcases (thenBy_eq_false (linear_lt Int)).mp hab with hlt | ⟨heq, hid⟩
  · exact .inl hlt
  · exact .inr ⟨heq.symm,
      ((linear_lt Bytes).total _ _ hne).resolve_right (of_decide_eq_false hid)⟩

theorem distinct_loaded (defaults : Bytes → Option Bytes) (order : List Bytes)
    (nodes : List ModelNode) :
    Distinct (loadCloudprovidersConfig defaults order nodes).providers :=
  distinct_load defaults nodes ⟨List.nodup_nil, fun _ hmem => by cases hmem⟩

/-- Of a loaded configuration every provider is a candidate once, those that the order names
by first mention before the others by cost tier and id; of every provider every model is one
once, group by group; and it does not matter in which order providers are listed, as records
or by their nodes. -/
theorem candidates_canonical (defaults : Bytes → Option Bytes) (order : List Bytes)
    (nodes : List ModelNode) :
    let cfg := loadCloudprovidersConfig defaults order nodes
    ((cfg.providers.map CloudProviderConfig.id).Nodup ∧
      (orderedCloudProviders cfg).Perm cfg.providers ∧
      orderedCloudProviders cfg =
        namedProviders cfg ++ stableSort before (unnamedProviders cfg) ∧
      (stableSort before (unnamedProviders cfg)).Pairwise fun a b =>
        costTierRank a.costTier < costTierRank b.costTier ∨
          (costTierRank a.costTier = costTierRank b.costTier ∧ a.id < b.id)) ∧
    (∀ provider ∈ cfg.providers, (provider.models.map CloudModelConfig.id).Nodup ∧
      ∀ requested, (cloudModelCandidates provider requested).Perm provider.models ∧
        cloudModelCandidates provider requested = modelGroups provider requested) ∧
    (∀ providers, cfg.providers.Perm providers →
      orderedCloudProviders { cfg with providers := providers } = orderedCloudProviders cfg) ∧
    ∀ nodes' : List ModelNode,
      (∀ id, nodes.filter (ModelNode.isOf id) = nodes'.filter (ModelNode.isOf id)) →
        orderedCloudProviders (loadCloudprovidersConfig defaults order nodes') =
          orderedCloudProviders cfg := by
  intro cfg
  have hd : Distinct cfg.providers := distinct_loaded defaults order nodes
  refine ⟨⟨hd.ids, orderedCloudProviders_perm hd.ids, orderedCloudProviders_eq hd.ids,
    ascend_unnamed hd.ids⟩, fun provider hmem => ⟨hd.models provider hmem, fun requested => ?_⟩,
    fun providers hperm => orderedCloudProviders_congr hd.ids hperm, fun nodes' hnodes => ?_⟩
  · have heq := cloudModelCandidates_eq (hd.models provider hmem) requested
    exact ⟨heq ▸ modelGroups_perm (hd.models provider hmem) requested, heq⟩
  · have hperm : cfg.providers.Perm (loadCloudprovidersConfig defaults order nodes').providers :=
      providers_perm_of_nodes defaults hnodes
    exact orderedCloudProviders_congr hd.ids hperm

/-- Two providers whose nodes come in either order; the order names one of them twice and one
that is not configured. -/
theorem candidates_canonical_swapped :
    let first : ModelNode := { providerId := some (ascii "alpha"), modelId := some (ascii "m"),
                               endpoint := some (ascii "/m") }
    let second : ModelNode := { providerId := some (ascii "Beta"), modelId := some (ascii "n"),
                                endpoint := some (ascii "/n") }
    let order := [ascii "beta", ascii "gone", ascii "beta"]
    orderedCloudProviders (loadCloudprovidersConfig (fun _ => none) order [second, first]) =
      orderedCloudProviders (loadCloudprovidersConfig (fun _ => none) order [first, second]) := by
  intro first second order
  refine (candidates_canonical (fun _ => none) order [first, second]).2.2.2 [second, first] ?_
  intro id
  have hfirst : first.provider = ascii "alpha" := by decide
  have hsecond : second.provider = ascii "beta" := by decide
  have hne : ascii "alpha" ≠ ascii "beta" := by decide
  simp only [List.filter_cons, List.filter_nil, ModelNode.isOf, hfirst, hsecond]
  split_ifs with ha hb
  · exact absurd ((of_decide_eq_true ha).trans (of_decide_eq_true hb).symm) hne
  · rfl
  · rfl
  · rfl

end CloudConfig

end HolderDaemon
