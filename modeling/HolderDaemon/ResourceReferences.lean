import HolderDaemon.CanonicalSort
import HolderDaemon.Groups
import HolderDaemon.Json

/-!
Which cards refer to a resource (`resource_references_json` of
`api/routes/AiResourceRoutes.cpp`): rows of cards and of links, in whatever order the
database gives them, gathered by resource and by card.
-/

set_option autoImplicit false

open Bytes

/-! Objects made key by key -/

namespace Json

/-- The fields after one assignment for each entry, in turn. -/
def assigned (l : List (Bytes × Json)) : List (Bytes × Json) :=
  l.foldl (fun fields e => insertField e.1 e.2 fields) []

theorem foldl_set (l fields : List (Bytes × Json)) :
    l.foldl (fun (result : Json) e => result.set e.1 e.2) (Json.obj fields) =
      Json.obj (l.foldl (fun fields e => insertField e.1 e.2 fields) fields) := by
  induction l generalizing fields with
  | nil => rfl
  | cons e l ih => exact ih (insertField e.1 e.2 fields)

theorem insertField_perm {key : Bytes} {fields : List (Bytes × Json)}
    (h : key ∉ fields.map Prod.fst) (v : Json) :
    (insertField key v fields).Perm ((key, v) :: fields) := by
  induction fields with
  | nil => exact List.Perm.refl _
  | cons f rest ih =>
    obtain ⟨k, w⟩ := f
    simp only [List.map_cons, List.mem_cons, not_or] at h
    rw [insertField, if_neg h.1]
    split
    · exact List.Perm.refl _
    · exact ((ih h.2).cons (k, w)).trans (List.Perm.swap (key, v) (k, w) rest)

/-- The keys stay in order. -/
theorem sorted_insertField {key : Bytes} {fields : List (Bytes × Json)}
    (h : key ∉ fields.map Prod.fst) (v : Json)
    (hs : fields.Pairwise fun f g => f.1 < g.1) :
    (insertField key v fields).Pairwise fun f g => f.1 < g.1 := by
  induction fields with
  | nil => exact List.pairwise_singleton _ _
  | cons f rest ih =>
    obtain ⟨k, w⟩ := f
    obtain ⟨hfirst, hrest⟩ := List.pairwise_cons.mp hs
    simp only [List.map_cons, List.mem_cons, not_or] at h
    rw [insertField, if_neg h.1]
    split
    · rename_i hlt
      refine List.pairwise_cons.mpr ⟨fun g hg => ?_, hs⟩
      rcases List.mem_cons.mp hg with rfl | hmem
      · exact hlt
      · exact Std.lt_trans hlt (hfirst g hmem)
    · rename_i hnot
      refine List.pairwise_cons.mpr ⟨fun g hg => ?_, ih h.2 hrest⟩
      rcases List.mem_cons.mp ((insertField_perm h.2 v).mem_iff.mp hg) with rfl | hmem
      · exact ((CanonicalSort.linear_lt Bytes).total key k h.1).resolve_left hnot
      · exact hfirst g hmem

theorem assigned_facts {l : List (Bytes × Json)} (h : (l.map Prod.fst).Nodup) :
    (assigned l).Perm l ∧ (assigned l).Pairwise fun f g => f.1 < g.1 := by
  induction l using List.reverseRecOn with
  | nil => exact ⟨List.Perm.refl _, List.Pairwise.nil⟩
  | append_singleton l e ih =>
    rw [List.map_append, List.nodup_append] at h
    obtain ⟨hl, -, hdisjoint⟩ := h
    obtain ⟨hperm, hsorted⟩ := ih hl
    have hnew : e.1 ∉ (assigned l).map Prod.fst := by
      intro hmem
      exact hdisjoint e.1 ((hperm.map Prod.fst).mem_iff.mp hmem) e.1 (by simp) rfl
    have hsnoc : assigned (l ++ [e]) = insertField e.1 e.2 (assigned l) := by
      rw [assigned, List.foldl_append]
      rfl
    rw [hsnoc]
    refine ⟨?_, sorted_insertField hnew e.2 hsorted⟩
    exact ((insertField_perm hnew e.2).trans (hperm.cons e)).trans
      (List.perm_append_singleton e l).symm

/-- The order of the assignments leaves no trace. -/
theorem assigned_eq_of_perm {l l' : List (Bytes × Json)} (h : (l.map Prod.fst).Nodup)
    (hperm : l.Perm l') : assigned l = assigned l' := by
  have h' : (l'.map Prod.fst).Nodup := (hperm.map Prod.fst).nodup_iff.mp h
  obtain ⟨hp, hs⟩ := assigned_facts h
  obtain ⟨hp', hs'⟩ := assigned_facts h'
  refine List.Perm.eq_of_pairwise (fun a b _ _ hab hba => ?_) hs hs'
    ((hp.trans hperm).trans hp'.symm)
  exact absurd (Std.lt_trans hab hba) Std.lt_irrefl

theorem field?_obj (fields : List (Bytes × Json)) (key : Bytes) :
    (Json.obj fields).field? key = fields.lookup key := by
  induction fields with
  | nil => rfl
  | cons f rest ih =>
    rw [Assoc.lookup_cons_eq, ← ih]
    simp only [field?, List.find?_cons]
    cases f.1 == key <;> simp

theorem field?_assigned {l : List (Bytes × Json)} (h : (l.map Prod.fst).Nodup) (key : Bytes) :
    (Json.obj (assigned l)).field? key = l.lookup key := by
  rw [field?_obj]
  exact (Assoc.lookup_eq_of_perm h (assigned_facts h).1.symm key).symm

end Json

namespace HolderDaemon

namespace References

open CanonicalSort

/-! Rows -/

structure Card where
  cardId : Bytes
  title : Bytes
  updatedAt : Int
  deletedAt : Option Int
  deriving DecidableEq

/-- A link to a resource, as `list_incoming_typed` lists it. -/
structure Link where
  fromCardId : Bytes
  toCardId : Bytes
  kind : Bytes
  deriving DecidableEq

/-- The cards of a project, trashed ones included; the id is their key. -/
structure CardRows where
  rows : List Card
  nodup : (rows.map Card.cardId).Nodup

structure Reference where
  cardId : Bytes := []
  title : Bytes := []
  updatedAt : Int := 0
  linkKinds : List Bytes := []
  deriving DecidableEq

/-! Gathering -/

/-- `emplace` keeps the first of an id, and so does the search. -/
def cardsById (cards : CardRows) : List (Bytes × Card) :=
  (cards.rows.filter fun card => card.deletedAt.isNone).map fun card => (card.cardId, card)

abbrev ByCard := List (Bytes × Reference)

abbrev Groups := List (Bytes × ByCard)

def withLink (card : Card) (kind : Bytes) (reference : Option Reference) : Reference where
  cardId := card.cardId
  title := card.title
  updatedAt := card.updatedAt
  linkKinds := Assoc.addNew ((reference.map Reference.linkKinds).getD []) kind

def addLink (cards : CardRows) (groups : Groups) (link : Link) : Groups :=
  match (cardsById cards).lookup link.fromCardId with
  | none => groups
  | some card =>
    Assoc.upsert link.toCardId
      (fun byCard => Assoc.upsert link.fromCardId (withLink card link.kind) (byCard.getD [])) groups

def referencesByResource (cards : CardRows) (links : List Link) : Groups :=
  links.foldl (addLink cards) []

/-! Answering -/

def sortTexts (l : List Bytes) : List Bytes := stableSort (byKey (fun x y : Bytes => x < y) id) l

def sortedKinds (reference : Reference) : Reference :=
  { reference with linkKinds := sortTexts reference.linkKinds }

/-- By title, and cards of one title by id. -/
def before : Reference → Reference → Bool :=
  thenBy (fun x y : Bytes => x < y) Reference.title
    (byKey (fun x y : Bytes => x < y) Reference.cardId)

/-- The references of one resource. The map of its cards is walked in the order of their
ids. -/
def referencesOf (byCard : ByCard) : List Reference :=
  stableSort before ((stableSort (byKey (fun x y : Bytes => x < y) Prod.fst) byCard).map fun e =>
    sortedKinds e.2)

def Reference.json (reference : Reference) : Json :=
  Json.object [
    (ascii "card_id", .str reference.cardId),
    (ascii "title", .str reference.title),
    (ascii "updated_at", .int reference.updatedAt),
    (ascii "link_kinds", .arr (reference.linkKinds.map Json.str))]

def payload (byCard : ByCard) : Json := .arr ((referencesOf byCard).map Reference.json)

/-- `walk` is the order in which the hash map of the resources is walked. -/
def resourceReferencesJson (walk : Groups → Groups) (cards : CardRows) (links : List Link) : Json :=
  (walk (referencesByResource cards links)).foldl
    (fun result e => result.set e.1 (payload e.2)) (.obj [])

/-- What the listing of resources shows for one of them. -/
def referencedByCards (references : Json) (resourceId : Bytes) : Json :=
  references.value resourceId (.arr [])

/-! Live cards -/

theorem lookup_cardsById {cards : CardRows} {id : Bytes} {card : Card} :
    (cardsById cards).lookup id = some card ↔
      card ∈ cards.rows ∧ card.deletedAt = none ∧ card.cardId = id := by
  have hkeys : ((cardsById cards).map Prod.fst).Nodup := by
    rw [cardsById, List.map_map]
    exact cards.nodup.sublist (List.filter_sublist.map _)
  rw [← Assoc.mem_iff_lookup hkeys, cardsById, List.mem_map]
  constructor
  · rintro ⟨other, hmem, heq⟩
    obtain ⟨rfl, rfl⟩ := Prod.mk.inj heq
    obtain ⟨hrow, hlive⟩ := List.mem_filter.mp hmem
    exact ⟨hrow, Option.isNone_iff_eq_none.mp hlive, rfl⟩
  · rintro ⟨hrow, hlive, rfl⟩
    exact ⟨card, List.mem_filter.mpr ⟨hrow, Option.isNone_iff_eq_none.mpr hlive⟩, rfl⟩

/-! What the gathering holds -/

def joins (resource card : Bytes) (link : Link) : Bool :=
  decide (link.toCardId = resource ∧ link.fromCardId = card)

/-- The kinds of the links from a card to a resource, each where it came first. -/
def kindsOf (links : List Link) (resource card : Bytes) : List Bytes :=
  Assoc.firsts ((links.filter (joins resource card)).map Link.kind)

theorem mem_kindsOf {links : List Link} {resource card kind : Bytes} :
    kind ∈ kindsOf links resource card ↔ ⟨card, resource, kind⟩ ∈ links := by
  rw [kindsOf, Assoc.mem_firsts, List.mem_map]
  constructor
  · rintro ⟨⟨c, r, k⟩, hmem, rfl⟩
    obtain ⟨hlink, hends⟩ := List.mem_filter.mp hmem
    obtain ⟨rfl, rfl⟩ := of_decide_eq_true hends
    exact hlink
  · intro h
    exact ⟨⟨card, resource, kind⟩, List.mem_filter.mpr ⟨h, decide_eq_true ⟨rfl, rfl⟩⟩, rfl⟩

theorem kindsOf_concat (links : List Link) (link : Link) (resource card : Bytes) :
    kindsOf (links ++ [link]) resource card =
      if link.toCardId = resource ∧ link.fromCardId = card then
        Assoc.addNew (kindsOf links resource card) link.kind
      else kindsOf links resource card := by
  unfold kindsOf
  rw [List.filter_append, List.map_append]
  by_cases h : link.toCardId = resource ∧ link.fromCardId = card
  · have hjoins : joins resource card link = true := decide_eq_true h
    rw [if_pos h, List.filter_cons_of_pos hjoins, List.filter_nil, List.map_singleton,
      Assoc.firsts_concat]
  · have hjoins : ¬ joins resource card link = true := fun hd => h (of_decide_eq_true hd)
    rw [if_neg h, List.filter_cons_of_neg hjoins, List.filter_nil, List.map_nil, List.append_nil]

/-- The reference of a live card that links to the resource. -/
def referenceOf (cards : CardRows) (links : List Link) (resource id : Bytes) : Option Reference :=
  ((cardsById cards).lookup id).bind fun card =>
    if kindsOf links resource id = [] then none
    else some ⟨card.cardId, card.title, card.updatedAt, kindsOf links resource id⟩

def entryOf (groups : Groups) (resource id : Bytes) : Option Reference :=
  (groups.lookup resource).bind fun byCard => byCard.lookup id

structure Grouped (cards : CardRows) (links : List Link) (groups : Groups) : Prop where
  nodup : (groups.map Prod.fst).Nodup
  inner : ∀ resource byCard, groups.lookup resource = some byCard →
    (byCard.map Prod.fst).Nodup ∧ byCard ≠ []
  entry : ∀ resource id, entryOf groups resource id = referenceOf cards links resource id

theorem referenceOf_concat (cards : CardRows) (links : List Link) (link : Link)
    (resource id : Bytes) :
    referenceOf cards (links ++ [link]) resource id =
      if link.toCardId = resource ∧ link.fromCardId = id then
        ((cardsById cards).lookup id).map fun card =>
          withLink card link.kind (referenceOf cards links resource id)
      else referenceOf cards links resource id := by
  unfold referenceOf
  rw [kindsOf_concat]
  by_cases h : link.toCardId = resource ∧ link.fromCardId = id
  · simp only [if_pos h]
    cases (cardsById cards).lookup id with
    | none => rfl
    | some card =>
      have hne : Assoc.addNew (kindsOf links resource id) link.kind ≠ [] :=
        List.ne_nil_of_mem (Assoc.mem_addNew.mpr (.inr rfl))
      simp only [Option.bind_some, Option.map_some, if_neg hne]
      by_cases hnil : kindsOf links resource id = []
      · simp [hnil, withLink]
      · simp [hnil, withLink]
  · simp only [if_neg h]

theorem upsert_ne_nil {k : Bytes} {f : Option Reference → Reference} {l : ByCard} :
    Assoc.upsert k f l ≠ [] := by
  intro h
  have hl := Assoc.lookup_upsert k k f l
  rw [h, if_pos rfl] at hl
  cases hl

/-- A link adds to the entry of its ends and leaves the others as they were. -/
theorem grouped_step {cards : CardRows} {links : List Link} {groups : Groups}
    (h : Grouped cards links groups) (link : Link) :
    Grouped cards (links ++ [link]) (addLink cards groups link) := by
  unfold addLink
  cases hcard : (cardsById cards).lookup link.fromCardId with
  | none =>
    refine ⟨h.nodup, h.inner, fun resource id => ?_⟩
    rw [h.entry, referenceOf_concat]
    split
    · rename_i hends
      obtain ⟨-, rfl⟩ := hends
      rw [referenceOf, hcard]
      rfl
    · rfl
  | some card =>
    refine ⟨Assoc.nodup_upsert _ _ h.nodup, fun resource byCard hl => ?_, fun resource id => ?_⟩
    · rw [Assoc.lookup_upsert] at hl
      split at hl
      · cases hl
        refine ⟨Assoc.nodup_upsert _ _ ?_, upsert_ne_nil⟩
        cases hold : groups.lookup link.toCardId with
        | none => exact List.nodup_nil
        | some old => exact (h.inner _ old hold).1
      · exact h.inner resource byCard hl
    · rw [referenceOf_concat, ← h.entry, entryOf, Assoc.lookup_upsert]
      by_cases hr : link.toCardId = resource
      · subst hr
        have hold : ∀ id, ((groups.lookup link.toCardId).getD []).lookup id =
            entryOf groups link.toCardId id := by
          intro id
          unfold entryOf
          cases groups.lookup link.toCardId <;> rfl
        rw [if_pos rfl, Option.bind_some, Assoc.lookup_upsert, hold, hold]
        by_cases hc : link.fromCardId = id
        · subst hc
          rw [if_pos rfl, if_pos ⟨rfl, rfl⟩, hcard]
          rfl
        · rw [if_neg hc, if_neg fun hends => hc hends.2]
      · rw [if_neg hr, if_neg fun hends => hr hends.1]
        rfl

theorem grouped_run (cards : CardRows) (links : List Link) :
    Grouped cards links (referencesByResource cards links) := by
  induction links using List.reverseRecOn with
  | nil =>
    refine ⟨List.nodup_nil, fun resource byCard hl => (by cases hl), fun resource id => ?_⟩
    unfold referenceOf kindsOf
    cases (cardsById cards).lookup id <;> rfl
  | append_singleton links link ih =>
    rw [referencesByResource, List.foldl_append]
    exact grouped_step ih link

/-! The references of one resource -/

theorem weak_before : Weak before := weak_thenBy (linear_lt Bytes) (weak_byKey (linear_lt Bytes))

theorem cardId_of_ties {a b : Reference} (h : Ties before a b) : a.cardId = b.cardId :=
  (ties_byKey (linear_lt Bytes)).mp ((ties_thenBy (linear_lt Bytes)).mp h).2

theorem sortTexts_eq_of_perm {l l' : List Bytes} (h : l.Perm l') : sortTexts l = sortTexts l' :=
  stableSort_eq_of_perm (weak_byKey (linear_lt Bytes)) h fun _ _ _ _ hties =>
    (ties_byKey (linear_lt Bytes)).mp hties

/-- Sorted texts that are distinct ascend. -/
theorem sortTexts_ascend {l : List Bytes} (h : l.Nodup) :
    (sortTexts l).Pairwise fun a b => a < b := by
  have hweak : Weak (byKey (fun x y : Bytes => x < y) id) := weak_byKey (linear_lt Bytes)
  have hsorted := pairwise_stableSort hweak l
  have hnodup : (sortTexts l).Nodup := (stableSort_perm _ l).nodup_iff.mpr h
  refine (hsorted.and hnodup).imp fun {a b} hab => ?_
  exact ((linear_lt Bytes).total a b hab.2).resolve_right (of_decide_eq_false hab.1)

/-- A map of the references of a resource: the keys are the ids, each once. -/
structure Keyed (byCard : ByCard) : Prop where
  nodup : (byCard.map Prod.fst).Nodup
  ids : ∀ id reference, byCard.lookup id = some reference → reference.cardId = id

theorem referencesOf_perm (byCard : ByCard) :
    (referencesOf byCard).Perm (byCard.map fun e => sortedKinds e.2) :=
  (stableSort_perm _ _).trans ((stableSort_perm _ byCard).map _)

theorem mem_referencesOf {byCard : ByCard} (h : Keyed byCard) {reference : Reference} :
    reference ∈ referencesOf byCard ↔
      ∃ id, (byCard.lookup id).map sortedKinds = some reference := by
  rw [(referencesOf_perm byCard).mem_iff, List.mem_map]
  constructor
  · rintro ⟨⟨id, found⟩, hmem, rfl⟩
    exact ⟨id, by rw [Assoc.lookup_of_mem h.nodup hmem, Option.map_some]⟩
  · rintro ⟨id, hfound⟩
    obtain ⟨found, hl, rfl⟩ := Option.map_eq_some_iff.mp hfound
    exact ⟨(id, found), Assoc.mem_of_lookup hl, rfl⟩

theorem cardIds_referencesOf {byCard : ByCard} (h : Keyed byCard) :
    ((referencesOf byCard).map Reference.cardId).Perm (byCard.map Prod.fst) := by
  refine ((referencesOf_perm byCard).map _).trans ?_
  rw [List.map_map]
  refine List.Perm.of_eq (List.map_congr_left fun e he => ?_)
  exact h.ids e.1 e.2 (Assoc.lookup_of_mem h.nodup he)

theorem eq_of_cardId {byCard : ByCard} (h : Keyed byCard) {a b : Reference}
    (ha : a ∈ referencesOf byCard) (hb : b ∈ referencesOf byCard) (hid : a.cardId = b.cardId) :
    a = b :=
  List.inj_on_of_nodup_map ((cardIds_referencesOf h).nodup_iff.mpr h.nodup) ha hb hid

theorem referencesOf_congr {byCard byCard' : ByCard} (h : Keyed byCard) (h' : Keyed byCard')
    (heq : ∀ id, (byCard.lookup id).map sortedKinds = (byCard'.lookup id).map sortedKinds) :
    referencesOf byCard = referencesOf byCard' := by
  have hkeys : ∀ l : ByCard, (l.map fun e => (e.1, sortedKinds e.2)).map Prod.fst =
      l.map Prod.fst := fun l => by simp
  have hsettled : (byCard.map fun e => (e.1, sortedKinds e.2)).Perm
      (byCard'.map fun e => (e.1, sortedKinds e.2)) := by
    refine Assoc.perm_of_lookup_eq ((hkeys byCard).symm ▸ h.nodup)
      ((hkeys byCard').symm ▸ h'.nodup) fun id => ?_
    rw [Assoc.lookup_map, Assoc.lookup_map, heq]
  have hvalues : (byCard.map fun e => sortedKinds e.2).Perm
      (byCard'.map fun e => sortedKinds e.2) := by
    have hsnd := hsettled.map Prod.snd
    rw [List.map_map, List.map_map] at hsnd
    exact hsnd
  refine stableSort_eq_of_perm weak_before ?_ fun a ha b hb hties => ?_
  · exact (((stableSort_perm _ byCard).map _).trans hvalues).trans
      ((stableSort_perm _ byCard').map _).symm
  · exact eq_of_cardId h (mem_stableSort.mpr ha) (mem_stableSort.mpr hb) (cardId_of_ties hties)

/-- By title and by id, with no two alike. -/
theorem ascend_referencesOf {byCard : ByCard} (h : Keyed byCard) :
    (referencesOf byCard).Pairwise fun a b =>
      a.title < b.title ∨ (a.title = b.title ∧ a.cardId < b.cardId) := by
  have hids := (cardIds_referencesOf h).nodup_iff.mpr h.nodup
  have hsorted : (referencesOf byCard).Pairwise fun a b => before b a = false :=
    pairwise_stableSort weak_before _
  refine (hsorted.and (List.pairwise_map.mp hids)).imp fun {a b} hab => ?_
  rcases (thenBy_eq_false (linear_lt Bytes)).mp hab.1 with hlt | ⟨heq, hid⟩
  · exact .inl hlt
  · exact .inr ⟨heq.symm,
      ((linear_lt Bytes).total _ _ hab.2).resolve_right (of_decide_eq_false hid)⟩

/-! The answer -/

theorem keyed_of_grouped {cards : CardRows} {links : List Link} {groups : Groups}
    (h : Grouped cards links groups) {resource : Bytes} {byCard : ByCard}
    (hl : groups.lookup resource = some byCard) :
    Keyed byCard ∧ ∀ id, byCard.lookup id = referenceOf cards links resource id := by
  have hentry : ∀ id, byCard.lookup id = referenceOf cards links resource id := by
    intro id
    rw [← h.entry, entryOf, hl, Option.bind_some]
  refine ⟨⟨(h.inner resource byCard hl).1, fun id reference hfound => ?_⟩, hentry⟩
  rw [hentry, referenceOf] at hfound
  obtain ⟨card, hcard, hsome⟩ := Option.bind_eq_some_iff.mp hfound
  split at hsome
  · cases hsome
  · cases hsome
    exact (lookup_cardsById.mp hcard).2.2

theorem lookup_isNone_iff {cards : CardRows} {links : List Link} {groups : Groups}
    (h : Grouped cards links groups) (resource : Bytes) :
    groups.lookup resource = none ↔ ∀ id, referenceOf cards links resource id = none := by
  constructor
  · intro hnone id
    rw [← h.entry, entryOf, hnone, Option.bind_none]
  · intro hall
    cases hl : groups.lookup resource with
    | none => rfl
    | some byCard =>
      obtain ⟨-, hentry⟩ := keyed_of_grouped h hl
      obtain ⟨hnodup, hne⟩ := h.inner resource byCard hl
      refine absurd (List.eq_nil_iff_forall_not_mem.mpr fun e he => ?_) hne
      have hfound := Assoc.lookup_of_mem hnodup (show (e.1, e.2) ∈ byCard from he)
      rw [hentry, hall] at hfound
      cases hfound

/-- The entries that the answer is assigned from. -/
def answered (groups : Groups) : List (Bytes × Json) := groups.map fun e => (e.1, payload e.2)

theorem keys_answered (groups : Groups) :
    (answered groups).map Prod.fst = groups.map Prod.fst := by
  rw [answered, List.map_map]
  rfl

theorem resourceReferencesJson_eq {walk : Groups → Groups}
    (hwalk : ∀ groups, (walk groups).Perm groups) (cards : CardRows) (links : List Link) :
    resourceReferencesJson walk cards links =
      .obj (Json.assigned (answered (referencesByResource cards links))) := by
  have hfold : resourceReferencesJson walk cards links =
      .obj (Json.assigned (answered (walk (referencesByResource cards links)))) := by
    rw [Json.assigned, ← Json.foldl_set, answered, List.foldl_map, resourceReferencesJson]
  have hperm : (answered (walk (referencesByResource cards links))).Perm
      (answered (referencesByResource cards links)) := (hwalk _).map _
  have hnodup : ((answered (referencesByResource cards links)).map Prod.fst).Nodup := by
    rw [keys_answered]
    exact (grouped_run cards links).nodup
  rw [hfold, ← Json.assigned_eq_of_perm hnodup hperm.symm]

/-- Same cards, same links. -/
def SameRows (cards cards' : CardRows) (links links' : List Link) : Prop :=
  (∀ card, card ∈ cards.rows ↔ card ∈ cards'.rows) ∧ ∀ link, link ∈ links ↔ link ∈ links'

theorem nodup_kindsOf (links : List Link) (resource card : Bytes) :
    (kindsOf links resource card).Nodup :=
  Assoc.nodup_firsts _

theorem kindsOf_perm {links links' : List Link} (h : ∀ link, link ∈ links ↔ link ∈ links')
    (resource card : Bytes) :
    (kindsOf links resource card).Perm (kindsOf links' resource card) := by
  refine (List.perm_ext_iff_of_nodup (nodup_kindsOf _ _ _) (nodup_kindsOf _ _ _)).mpr fun kind => ?_
  have hmem := h ⟨card, resource, kind⟩
  rw [← mem_kindsOf, ← mem_kindsOf] at hmem
  exact hmem

theorem referenceOf_congr {cards cards' : CardRows} {links links' : List Link}
    (h : SameRows cards cards' links links') (resource id : Bytes) :
    (referenceOf cards links resource id).map sortedKinds =
      (referenceOf cards' links' resource id).map sortedKinds := by
  have hcards : (cardsById cards).lookup id = (cardsById cards').lookup id := by
    refine Option.ext fun card => ?_
    rw [lookup_cardsById, lookup_cardsById, h.1]
  have hkinds := kindsOf_perm h.2 resource id
  unfold referenceOf
  rw [hcards]
  cases (cardsById cards').lookup id with
  | none => rfl
  | some card =>
    have hnil : kindsOf links resource id = [] ↔ kindsOf links' resource id = [] := by
      rw [← List.length_eq_zero_iff, hkinds.length_eq, List.length_eq_zero_iff]
    by_cases hno : kindsOf links resource id = []
    · simp [hno, hnil.mp hno]
    · simp [hno, mt hnil.mpr hno, sortedKinds, sortTexts_eq_of_perm hkinds]

theorem answered_perm {cards cards' : CardRows} {links links' : List Link}
    (h : SameRows cards cards' links links') :
    (answered (referencesByResource cards links)).Perm
      (answered (referencesByResource cards' links')) := by
  have hg := grouped_run cards links
  have hg' := grouped_run cards' links'
  refine Assoc.perm_of_lookup_eq ((keys_answered _).symm ▸ hg.nodup)
    ((keys_answered _).symm ▸ hg'.nodup) fun resource => ?_
  rw [answered, answered, Assoc.lookup_map, Assoc.lookup_map]
  have hnone : (referencesByResource cards links).lookup resource = none ↔
      (referencesByResource cards' links').lookup resource = none := by
    rw [lookup_isNone_iff hg, lookup_isNone_iff hg']
    refine forall_congr' fun id => ?_
    rw [← Option.map_eq_none_iff (f := sortedKinds), referenceOf_congr h, Option.map_eq_none_iff]
  cases hl : (referencesByResource cards links).lookup resource with
  | none => rw [hnone.mp hl]
  | some byCard =>
    cases hl' : (referencesByResource cards' links').lookup resource with
    | none =>
      rw [hnone.mpr hl'] at hl
      cases hl
    | some byCard' =>
      obtain ⟨hkeyed, hentry⟩ := keyed_of_grouped hg hl
      obtain ⟨hkeyed', hentry'⟩ := keyed_of_grouped hg' hl'
      have hrefs := referencesOf_congr hkeyed hkeyed' fun id => by
        rw [hentry, hentry', referenceOf_congr h]
      rw [Option.map_some, Option.map_some, payload, payload, hrefs]

/-- What the answer is to say of a card and a resource: the card is live and links to the
resource, and these are its own title and time and the kinds of its links. -/
structure Refers (cards : CardRows) (links : List Link) (resource : Bytes)
    (reference : Reference) : Prop where
  card : ∃ card ∈ cards.rows, card.deletedAt = none ∧ card.cardId = reference.cardId ∧
    card.title = reference.title ∧ card.updatedAt = reference.updatedAt
  linked : ∃ kind, ⟨reference.cardId, resource, kind⟩ ∈ links
  kinds : ∀ kind, kind ∈ reference.linkKinds ↔ ⟨reference.cardId, resource, kind⟩ ∈ links
  ascend : reference.linkKinds.Pairwise fun a b => a < b

theorem refers_iff {cards : CardRows} {links : List Link} {resource : Bytes}
    {reference : Reference} :
    Refers cards links resource reference ↔
      ∃ id, (referenceOf cards links resource id).map sortedKinds = some reference := by
  constructor
  · intro h
    obtain ⟨card, hrow, hlive, hid, htitle, htime⟩ := h.card
    obtain ⟨kind, hlink⟩ := h.linked
    refine ⟨reference.cardId, ?_⟩
    have hcard := lookup_cardsById.mpr ⟨hrow, hlive, hid⟩
    have hne : kindsOf links resource reference.cardId ≠ [] :=
      List.ne_nil_of_mem (mem_kindsOf.mpr hlink)
    have hnodup : reference.linkKinds.Nodup := h.ascend.imp fun {a b} hlt => by
      rintro rfl
      exact Std.lt_irrefl hlt
    have hsame : (kindsOf links resource reference.cardId).Perm reference.linkKinds := by
      refine (List.perm_ext_iff_of_nodup (nodup_kindsOf _ _ _) hnodup).mpr fun kind => ?_
      rw [mem_kindsOf, h.kinds]
    have hperm : (sortTexts (kindsOf links resource reference.cardId)).Perm reference.linkKinds :=
      (stableSort_perm _ _).trans hsame
    have hkinds : sortTexts (kindsOf links resource reference.cardId) = reference.linkKinds :=
      List.Perm.eq_of_pairwise (fun a b _ _ hab hba => absurd (Std.lt_trans hab hba) Std.lt_irrefl)
        (sortTexts_ascend (nodup_kindsOf _ _ _)) h.ascend hperm
    rw [referenceOf, hcard, Option.bind_some, if_neg hne, Option.map_some, sortedKinds, hkinds, hid,
      htitle, htime]
  · rintro ⟨id, hsome⟩
    obtain ⟨found, hfound, rfl⟩ := Option.map_eq_some_iff.mp hsome
    obtain ⟨card, hcard, hkinds⟩ := Option.bind_eq_some_iff.mp hfound
    obtain ⟨hrow, hlive, rfl⟩ := lookup_cardsById.mp hcard
    split at hkinds
    · cases hkinds
    · rename_i hne
      cases hkinds
      have hmem : ∀ kind, kind ∈ sortTexts (kindsOf links resource card.cardId) ↔
          ⟨card.cardId, resource, kind⟩ ∈ links := fun kind => by
        rw [sortTexts, mem_stableSort, mem_kindsOf]
      obtain ⟨kind, hkind⟩ := List.exists_mem_of_ne_nil _ hne
      exact ⟨⟨card, hrow, hlive, rfl, rfl, rfl⟩, ⟨kind, mem_kindsOf.mp hkind⟩, hmem,
        sortTexts_ascend (nodup_kindsOf _ _ _)⟩

/-- The references of each resource are those of the live cards that link to it, each once,
by title and id; nothing but the rows as sets decides the answer. -/
theorem resourceReferencesJson_canonical (walk : Groups → Groups)
    (hwalk : ∀ groups, (walk groups).Perm groups) (cards : CardRows) (links : List Link) :
    (∀ resource, ∃ references : List Reference,
      referencedByCards (resourceReferencesJson walk cards links) resource =
        .arr (references.map Reference.json) ∧
      (∀ reference, reference ∈ references ↔ Refers cards links resource reference) ∧
      (references.map Reference.cardId).Nodup ∧
      references.Pairwise fun a b =>
        a.title < b.title ∨ (a.title = b.title ∧ a.cardId < b.cardId)) ∧
    ∀ (walk' : Groups → Groups) (cards' : CardRows) (links' : List Link),
      (∀ groups, (walk' groups).Perm groups) → SameRows cards cards' links links' →
        resourceReferencesJson walk' cards' links' = resourceReferencesJson walk cards links := by
  have hg := grouped_run cards links
  have hkeys : ((answered (referencesByResource cards links)).map Prod.fst).Nodup := by
    rw [keys_answered]
    exact hg.nodup
  refine ⟨fun resource => ?_, fun walk' cards' links' hwalk' hsame => ?_⟩
  · have hfield : referencedByCards (resourceReferencesJson walk cards links) resource =
        (((referencesByResource cards links).lookup resource).map payload).getD (.arr []) := by
      rw [referencedByCards, Json.value, resourceReferencesJson_eq hwalk,
        Json.field?_assigned hkeys, answered, Assoc.lookup_map]
    cases hl : (referencesByResource cards links).lookup resource with
    | none =>
      refine ⟨[], by rw [hfield, hl]; rfl, fun reference => ?_, List.nodup_nil, List.Pairwise.nil⟩
      refine iff_of_false List.not_mem_nil fun h => ?_
      obtain ⟨id, hsome⟩ := refers_iff.mp h
      rw [(lookup_isNone_iff hg resource).mp hl id] at hsome
      cases hsome
    | some byCard =>
      obtain ⟨hkeyed, hentry⟩ := keyed_of_grouped hg hl
      refine ⟨referencesOf byCard, by rw [hfield, hl]; rfl, fun reference => ?_,
        (cardIds_referencesOf hkeyed).nodup_iff.mpr hkeyed.nodup, ascend_referencesOf hkeyed⟩
      rw [mem_referencesOf hkeyed, refers_iff]
      simp only [hentry]
  · rw [resourceReferencesJson_eq hwalk, resourceReferencesJson_eq hwalk',
      Json.assigned_eq_of_perm hkeys (answered_perm hsame)]

/-- A trashed card, a link written twice, and the rows in another order. -/
theorem resourceReferencesJson_canonical_rows :
    let live : Card := ⟨ascii "c1", ascii "Plan", 5, none⟩
    let trashed : Card := ⟨ascii "c2", ascii "Old", 4, some 9⟩
    resourceReferencesJson List.reverse ⟨[trashed, live], by decide⟩
        [⟨ascii "c1", ascii "r1", ascii "uses"⟩, ⟨ascii "c1", ascii "r1", ascii "cites"⟩,
          ⟨ascii "c2", ascii "r1", ascii "uses"⟩] =
      resourceReferencesJson id ⟨[live, trashed], by decide⟩
        [⟨ascii "c2", ascii "r1", ascii "uses"⟩, ⟨ascii "c1", ascii "r1", ascii "cites"⟩,
          ⟨ascii "c1", ascii "r1", ascii "uses"⟩, ⟨ascii "c1", ascii "r1", ascii "cites"⟩] := by
  refine (resourceReferencesJson_canonical id (fun _ => List.Perm.refl _) _ _).2 List.reverse _ _
    List.reverse_perm ⟨fun card => ?_, fun link => ?_⟩
  · simp only [List.mem_cons, List.not_mem_nil, or_false]
    exact or_comm
  · simp only [List.mem_cons, List.not_mem_nil, or_false]
    grind

end References

end HolderDaemon
