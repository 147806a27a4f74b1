import HolderDaemon.Assoc
import HolderDaemon.CanonicalSort
import HolderDaemon.RunnerRegistry

/-!
Recommendations of local models for the caste of a machine (`api/support/LocalModelRouting.cpp`),
built over a hash map in whatever order it is walked.
-/

set_option autoImplicit false

open Bytes

namespace HolderDaemon

namespace Castes

open CanonicalSort
open Runners (rfind trimAscii)

/-! Names and ranks -/

def lowercaseAscii (s : Bytes) : Bytes := s.map fun b => if 65 ≤ b ∧ b ≤ 90 then b + 32 else b

/-- Empty where the name is no caste's, old names included. -/
def normalizeCasteName (raw : Bytes) : Bytes :=
  let key := lowercaseAscii (trimAscii raw)
  if key = [] then []
  else if key = ascii "mini" ∨ key = ascii "user" ∨ key = ascii "developer" ∨
      key = ascii "workstation" ∨ key = ascii "rig" then key
  else if key = ascii "tiny" then ascii "mini"
  else if key = ascii "budget" then ascii "user"
  else if key = ascii "laptop" then ascii "developer"
  else if key = ascii "gaming" then ascii "workstation"
  else []

def casteRank (name : Bytes) : Int :=
  let n := normalizeCasteName name
  if n = ascii "mini" then 0
  else if n = ascii "user" then 1
  else if n = ascii "developer" then 2
  else if n = ascii "workstation" then 3
  else if n = ascii "rig" then 4
  else -1

def casteMeetsOrExceeds (machineCaste requiredCaste : Bytes) : Bool :=
  let machine := casteRank machineCaste
  let required := casteRank requiredCaste
  if machine < 0 ∨ required < 0 then false else decide (machine ≥ required)

def qualityRank (quality : Bytes) : Int :=
  let q := lowercaseAscii (trimAscii quality)
  if q = ascii "high" then 3
  else if q = ascii "medium" then 2
  else if q = ascii "low" then 1
  else 0

def speedRank (speed : Bytes) : Int :=
  let s := lowercaseAscii (trimAscii speed)
  if s = ascii "fast" then 3
  else if s = ascii "medium" then 2
  else if s = ascii "slow" then 1
  else 0

/-- A tag less its `:latest`, for comparison with the installed names. -/
def normalizeModelTagForMatch (name : Bytes) : Bytes :=
  let n := lowercaseAscii (trimAscii name)
  if n = [] then []
  else
    match rfind 58 n with
    | some colon => if n.drop (colon + 1) = ascii "latest" then n.take colon else n
    | none => n

/-! Recommendations -/

structure LocalModelMeta where
  provider : Bytes := []
  engine : Bytes := []
  category : Bytes := []
  hardwareTier : Bytes := []
  speed : Bytes := []
  quality : Bytes := []

/-- The hash map of the catalogue: its entries in the order they are walked. -/
structure ModelMeta where
  entries : List (Bytes × LocalModelMeta)
  nodup : (entries.map Prod.fst).Nodup

def ModelMeta.find (catalogue : ModelMeta) (tag : Bytes) : Option LocalModelMeta :=
  catalogue.entries.lookup tag

structure LocalModel where
  name : Bytes

def textOrNull (s : Bytes) : Json := if s = [] then .null else .str s

def recommendation (installed : List Bytes) (tag : Bytes) (entry : LocalModelMeta) : Json :=
  Json.object [
    (ascii "tag", .str tag),
    (ascii "provider", textOrNull entry.provider),
    (ascii "engine", textOrNull entry.engine),
    (ascii "category", textOrNull entry.category),
    (ascii "required_caste", .str entry.hardwareTier),
    (ascii "installed", .bool (installed.contains (normalizeModelTagForMatch tag)))]

/-- `value("tag", "")` of an item. -/
def tagOf (item : Json) : Bytes :=
  match item.field? (ascii "tag") with
  | some (.str s) => s
  | _ => []

def qualityOf (catalogue : ModelMeta) (item : Json) : Int :=
  match catalogue.find (tagOf item) with
  | some entry => qualityRank entry.quality
  | none => 0

def speedOf (catalogue : ModelMeta) (item : Json) : Int :=
  match catalogue.find (tagOf item) with
  | some entry => speedRank entry.speed
  | none => 0

/-- The comparator: the better quality first, then the faster, then by tag. -/
def before (catalogue : ModelMeta) : Json → Json → Bool :=
  thenBy (fun x y : Int => x > y) (qualityOf catalogue)
    (thenBy (fun x y : Int => x > y) (speedOf catalogue) (byKey (fun x y : Bytes => x < y) tagOf))

def eligible (machineCaste : Bytes) (entry : LocalModelMeta) : Bool :=
  !entry.hardwareTier.isEmpty && casteMeetsOrExceeds machineCaste entry.hardwareTier

/-- What the loop over the map collects. -/
def collected (installedModels : List LocalModel) (catalogue : ModelMeta) (machineCaste : Bytes) :
    List Json :=
  let installed := installedModels.map fun model => normalizeModelTagForMatch model.name
  (catalogue.entries.filter fun e => eligible machineCaste e.2).map fun e =>
    recommendation installed e.1 e.2

def buildCasteRecommendations (installedModels : List LocalModel) (catalogue : ModelMeta)
    (machineCaste : Bytes) : List Json :=
  stableSort (before catalogue) (collected installedModels catalogue machineCaste)

/-! The order -/

theorem weak_before (catalogue : ModelMeta) : Weak (before catalogue) :=
  weak_thenBy (linear_gt Int) (weak_thenBy (linear_gt Int) (weak_byKey (linear_lt Bytes)))

theorem tagOf_of_ties {catalogue : ModelMeta} {a b : Json} (h : Ties (before catalogue) a b) :
    tagOf a = tagOf b := by
  obtain ⟨-, hrest⟩ := (ties_thenBy (linear_gt Int)).mp h
  obtain ⟨-, htag⟩ := (ties_thenBy (linear_gt Int)).mp hrest
  exact (ties_byKey (linear_lt Bytes)).mp htag

@[simp] theorem tagOf_recommendation (installed : List Bytes) (tag : Bytes)
    (entry : LocalModelMeta) : tagOf (recommendation installed tag entry) = tag := by
  simp [tagOf, recommendation, Json.field?_object]

/-! What does not matter -/

/-- The same entries, walked in another order. -/
def ModelMeta.Same (catalogue other : ModelMeta) : Prop := catalogue.entries.Perm other.entries

theorem ModelMeta.Same.find {catalogue other : ModelMeta} (h : catalogue.Same other) (tag : Bytes) :
    catalogue.find tag = other.find tag := by
  unfold ModelMeta.find
  cases hl : catalogue.entries.lookup tag with
  | some entry =>
    have hmem := h.mem_iff.mp (Assoc.mem_of_lookup hl)
    exact (Assoc.lookup_of_mem other.nodup hmem).symm
  | none =>
    cases hl' : other.entries.lookup tag with
    | none => rfl
    | some entry =>
      have hmem := h.mem_iff.mpr (Assoc.mem_of_lookup hl')
      rw [Assoc.lookup_of_mem catalogue.nodup hmem] at hl
      cases hl

theorem before_congr {catalogue other : ModelMeta} (h : catalogue.Same other) :
    before catalogue = before other := by
  have hfind : catalogue.find = other.find := funext h.find
  unfold before qualityOf speedOf
  rw [hfind]

theorem recommendation_congr {installed installed' : List Bytes}
    (h : ∀ name, name ∈ installed ↔ name ∈ installed') (tag : Bytes) (entry : LocalModelMeta) :
    recommendation installed tag entry = recommendation installed' tag entry := by
  have hbool : installed.contains (normalizeModelTagForMatch tag) =
      installed'.contains (normalizeModelTagForMatch tag) := by
    rw [Bool.eq_iff_iff, List.contains_iff_mem, List.contains_iff_mem, h]
  rw [recommendation, recommendation, hbool]

theorem collected_perm {models models' : List LocalModel} {catalogue other : ModelMeta}
    (hmodels : ∀ model, model ∈ models ↔ model ∈ models') (h : catalogue.Same other)
    (machineCaste : Bytes) :
    (collected models catalogue machineCaste).Perm (collected models' other machineCaste) := by
  have hnames : ∀ name,
      name ∈ models.map (fun model => normalizeModelTagForMatch model.name) ↔
        name ∈ models'.map fun model => normalizeModelTagForMatch model.name := by
    intro name
    simp only [List.mem_map, hmodels]
  unfold collected
  simp only [recommendation_congr hnames]
  exact (h.filter _).map _

/-- Two items of one tag are one item. -/
theorem eq_of_mem_collected {models : List LocalModel} {catalogue : ModelMeta}
    {machineCaste : Bytes} {a b : Json} (ha : a ∈ collected models catalogue machineCaste)
    (hb : b ∈ collected models catalogue machineCaste) (htag : tagOf a = tagOf b) : a = b := by
  obtain ⟨⟨tag, entry⟩, he, rfl⟩ := List.mem_map.mp ha
  obtain ⟨⟨tag', entry'⟩, he', rfl⟩ := List.mem_map.mp hb
  simp only [tagOf_recommendation] at htag
  subst htag
  have hl := Assoc.lookup_of_mem catalogue.nodup (List.mem_filter.mp he).1
  rw [Assoc.lookup_of_mem catalogue.nodup (List.mem_filter.mp he').1] at hl
  rw [Option.some.inj hl]

theorem buildCasteRecommendations_congr {models models' : List LocalModel}
    {catalogue other : ModelMeta} (hmodels : ∀ model, model ∈ models ↔ model ∈ models')
    (h : catalogue.Same other) (machineCaste : Bytes) :
    buildCasteRecommendations models catalogue machineCaste =
      buildCasteRecommendations models' other machineCaste := by
  unfold buildCasteRecommendations
  rw [← before_congr h]
  refine stableSort_eq_of_perm (weak_before catalogue) (collected_perm hmodels h machineCaste) ?_
  exact fun a ha b hb hties => eq_of_mem_collected ha hb (tagOf_of_ties hties)

/-! What is recommended -/

theorem tags_collected (models : List LocalModel) (catalogue : ModelMeta) (machineCaste : Bytes) :
    (collected models catalogue machineCaste).map tagOf =
      (catalogue.entries.filter fun e => eligible machineCaste e.2).map Prod.fst := by
  rw [collected, List.map_map]
  exact List.map_congr_left fun e _ => tagOf_recommendation _ e.1 e.2

theorem mem_tags_collected {models : List LocalModel} {catalogue : ModelMeta}
    {machineCaste tag : Bytes} :
    tag ∈ (collected models catalogue machineCaste).map tagOf ↔
      ∃ entry, catalogue.find tag = some entry ∧ eligible machineCaste entry = true := by
  rw [tags_collected, List.mem_map]
  constructor
  · rintro ⟨⟨tag, entry⟩, he, rfl⟩
    obtain ⟨hmem, helig⟩ := List.mem_filter.mp he
    exact ⟨entry, Assoc.lookup_of_mem catalogue.nodup hmem, helig⟩
  · rintro ⟨entry, hfind, helig⟩
    exact ⟨(tag, entry), List.mem_filter.mpr ⟨Assoc.mem_of_lookup hfind, helig⟩, rfl⟩

theorem nodup_tags_collected (models : List LocalModel) (catalogue : ModelMeta)
    (machineCaste : Bytes) : ((collected models catalogue machineCaste).map tagOf).Nodup := by
  rw [tags_collected]
  exact catalogue.nodup.sublist (List.filter_sublist.map _)

/-- A machine takes the models of its own caste and of those below it. -/
theorem eligible_iff {machineCaste : Bytes} {entry : LocalModelMeta} :
    eligible machineCaste entry = true ↔
      entry.hardwareTier ≠ [] ∧ 0 ≤ casteRank entry.hardwareTier ∧
        casteRank entry.hardwareTier ≤ casteRank machineCaste := by
  unfold eligible casteMeetsOrExceeds
  rw [Bool.and_eq_true, Bool.not_eq_true', List.isEmpty_eq_false_iff]
  refine and_congr_right fun _ => ?_
  dsimp only
  split
  · rename_i hneg
    exact iff_of_false Bool.false_ne_true (by omega)
  · rw [decide_eq_true_eq]
    omega

/-- The recommendations for a caste: each eligible tag once, with the entry it has in the
catalogue, in an order that only the catalogue as a map and the installed models as a set
decide. -/
theorem buildCasteRecommendations_canonical (models : List LocalModel) (catalogue : ModelMeta)
    (machineCaste : Bytes) :
    ((buildCasteRecommendations models catalogue machineCaste).map tagOf).Nodup ∧
      (∀ tag, tag ∈ (buildCasteRecommendations models catalogue machineCaste).map tagOf ↔
        ∃ entry, catalogue.find tag = some entry ∧ entry.hardwareTier ≠ [] ∧
          0 ≤ casteRank entry.hardwareTier ∧
          casteRank entry.hardwareTier ≤ casteRank machineCaste) ∧
      (∀ item ∈ buildCasteRecommendations models catalogue machineCaste,
        ∃ tag entry, catalogue.find tag = some entry ∧ item = recommendation
          (models.map fun model => normalizeModelTagForMatch model.name) tag entry) ∧
      ((buildCasteRecommendations models catalogue machineCaste).Pairwise fun a b =>
        before catalogue b a = false) ∧
      ∀ (models' : List LocalModel) (other : ModelMeta),
        (∀ model, model ∈ models ↔ model ∈ models') → catalogue.Same other →
          buildCasteRecommendations models' other machineCaste =
            buildCasteRecommendations models catalogue machineCaste := by
  have hperm := (stableSort_perm (before catalogue)
    (collected models catalogue machineCaste)).map tagOf
  refine ⟨?_, fun tag => ?_, fun item hitem => ?_, ?_, fun models' other hmodels hsame => ?_⟩
  · exact hperm.nodup_iff.mpr (nodup_tags_collected models catalogue machineCaste)
  · rw [buildCasteRecommendations, hperm.mem_iff, mem_tags_collected]
    simp only [eligible_iff]
  · obtain ⟨⟨tag, entry⟩, he, rfl⟩ := List.mem_map.mp (mem_stableSort.mp hitem)
    exact ⟨tag, entry, Assoc.lookup_of_mem catalogue.nodup (List.mem_filter.mp he).1, rfl⟩
  · exact pairwise_stableSort (weak_before catalogue) _
  · exact (buildCasteRecommendations_congr hmodels hsame machineCaste).symm

/-- Two models that tie in quality and in speed, walked in either order, one of them
reported twice as installed. -/
theorem buildCasteRecommendations_canonical_swapped :
    let small : LocalModelMeta := { hardwareTier := ascii "user", quality := ascii "low" }
    buildCasteRecommendations [⟨ascii "phi"⟩, ⟨ascii "phi"⟩]
        ⟨[(ascii "gemma", small), (ascii "phi:latest", small)], by decide⟩ (ascii "laptop") =
      buildCasteRecommendations [⟨ascii "phi"⟩]
        ⟨[(ascii "phi:latest", small), (ascii "gemma", small)], by decide⟩ (ascii "laptop") :=
  (buildCasteRecommendations_canonical _ _ _).2.2.2.2 _ _
    (fun _ => by simp) (List.Perm.swap _ _ _)

end Castes

end HolderDaemon
