import HolderDaemon.Ancestry
import HolderDaemon.CanonicalSort
import HolderDaemon.Groups
import HolderDaemon.OAuthAttempts
import HolderDaemon.Pieces

/-!
One level of a project's cards (`GET /cards/context`, `api/routes/CardRoutes.cpp`): the cards below
a parent in the order that is asked for, and the way down to them.
-/

set_option autoImplicit false

open Bytes
open CanonicalSort

namespace HolderDaemon

namespace CardContext

open GoogleDriveOAuth (queryParamValue)

universe u

structure Card (κ : Type u) where
  cardId : Bytes
  projectId : Bytes
  title : Bytes
  relPath : Bytes
  sortKey : κ
  createdAt : Int
  updatedAt : Int
  parentCardId : Option Bytes
  deletedAt : Option Int
  deriving DecidableEq

/-- Rows of the `cards` table, whose key is the card's id. -/
structure CardRows (κ : Type u) where
  rows : List (Card κ)
  nodup : (rows.map Card.cardId).Nodup

structure Project where
  projectId : Bytes
  name : Bytes
  deriving DecidableEq

/-- `ProjectRepo::get`, and `list_all`, `list_roots` and `list_children` of `CardRepo`. -/
structure Repos (κ : Type u) where
  project : Bytes → Option Project
  listAll : Bytes → CardRows κ
  listRoots : Bytes → CardRows κ
  listChildren : Bytes → Bytes → CardRows κ

/-! Parameters -/

inductive CardListOrder where
  | treeDefault
  | updatedDesc
  | titleAsc
  deriving DecidableEq

def isBlank (b : UInt8) : Bool := b = 32 || b = 9 || b = 13 || b = 10

def normalizeParentId (parentCardId : Option Bytes) : Option Bytes :=
  parentCardId.bind fun raw =>
    if Pieces.trim isBlank raw = [] then none else some (Pieces.trim isBlank raw)

def parseCountParam (countRaw : Bytes) : Except Bytes Bool :=
  if countRaw = [] then .ok false
  else if countRaw = ascii "1" ∨ countRaw = ascii "true" then .ok true
  else if countRaw = ascii "0" ∨ countRaw = ascii "false" then .ok false
  else .error (ascii "Invalid count. Expected true/false or 1/0.")

def parseCardOrderParam (orderRaw : Bytes) (defaultOrder : CardListOrder) :
    Except Bytes CardListOrder :=
  if orderRaw = [] then .ok defaultOrder
  else if orderRaw = ascii "tree_default" then .ok .treeDefault
  else if orderRaw = ascii "updated_desc" then .ok .updatedDesc
  else if orderRaw = ascii "title_asc" then .ok .titleAsc
  else .error (ascii "Invalid order. Expected tree_default, updated_desc, or title_asc.")

/-! The order of a level -/

section Order
variable {κ : Type u}

def lowercaseTitle (card : Card κ) : Bytes :=
  card.title.map fun b => if 65 ≤ b ∧ b ≤ 90 then b + 32 else b

/-- `compare_title_ci_then_id`. -/
def compareTitleCiThenId : Card κ → Card κ → Bool :=
  thenBy (fun x y : Bytes => x < y) lowercaseTitle (byKey (fun x y : Bytes => x < y) Card.cardId)

variable [LinearOrder κ]

/-- The comparator of `sort_cards_by_order`. -/
def before : CardListOrder → Card κ → Card κ → Bool
  | .treeDefault =>
    thenBy (fun x y : κ => x < y) Card.sortKey
      (thenBy (fun x y : Int => x > y) Card.updatedAt compareTitleCiThenId)
  | .updatedDesc =>
    thenBy (fun x y : Int => x > y) Card.updatedAt
      (thenBy (fun x y : Int => x > y) Card.createdAt compareTitleCiThenId)
  | .titleAsc => compareTitleCiThenId

def sortCardsByOrder (cards : List (Card κ)) (order : CardListOrder) : List (Card κ) :=
  stableSort (before order) cards

end Order

/-! The answer -/

section Answer
variable {κ : Type u}

abbrev CardsById (κ : Type u) := List (Bytes × Card κ)

def cardsById (cards : CardRows κ) : CardsById κ :=
  (cards.rows.filter fun card => card.deletedAt.isNone).map fun card => (card.cardId, card)

/-- `cards_by_id.find`. -/
def find (cards : CardsById κ) (id : Bytes) : Option (Card κ) := cards.lookup id

def countChild (cards : CardsById κ) (counts : List (Bytes × Nat)) (e : Bytes × Card κ) :
    List (Bytes × Nat) :=
  match normalizeParentId e.2.parentCardId with
  | none => counts
  | some parentId =>
    if (find cards parentId).isSome then
      Assoc.upsert parentId (fun n => n.getD 0 + 1) counts
    else counts

/-- `child_count_by_parent`; `walk` is the order in which the map is walked. -/
def childCountByParent (walk : CardsById κ → CardsById κ) (cards : CardsById κ) :
    List (Bytes × Nat) :=
  (walk cards).foldl (countChild cards) []

/-- The cards from `cursor` upwards. -/
def chain (cards : CardsById κ) : Nat → Option Bytes → List (Card κ)
  | 0, _ => []
  | _ + 1, none => []
  | guard + 1, some cursorId =>
    match find cards cursorId with
    | none => []
    | some card => card :: chain cards guard (normalizeParentId card.parentCardId)

inductive Crumb where
  | project (projectId title : Bytes)
  | card (cardId title : Bytes)
  deriving DecidableEq

def Crumb.ofCard (card : Card κ) : Crumb := .card card.cardId card.title

/-- A card as it is listed, with `child_count` where that is asked for. -/
structure Item (κ : Type u) where
  card : Card κ
  childCount : Option Nat
  deriving DecidableEq

structure ContextData (κ : Type u) where
  project : Project
  currentParentCardId : Option Bytes
  breadcrumbs : List Crumb
  cards : List (Item κ)
  deriving DecidableEq

inductive Response (κ : Type u) where
  | badRequest (message : Bytes)
  | notFound (message : Bytes)
  | ok (data : ContextData κ)
  deriving DecidableEq

variable [LinearOrder κ]

def levelCards (repos : Repos κ) (projectId : Bytes) : Option Bytes → CardRows κ
  | none => repos.listRoots projectId
  | some parentId => repos.listChildren projectId parentId

def itemsOf (counts : List (Bytes × Nat)) (includeCount : Bool) (level : List (Card κ)) :
    List (Item κ) :=
  (level.filter fun card => card.deletedAt.isNone).map fun card =>
    ⟨card, if includeCount then some ((counts.lookup card.cardId).getD 0) else none⟩

def breadcrumbs (project : Project) (cards : CardsById κ) (parentCardId : Option Bytes) :
    List Crumb :=
  .project project.projectId project.name ::
    (chain cards 1024 parentCardId).reverse.map Crumb.ofCard

def contextData (walk : CardsById κ → CardsById κ) (project : Project) (cards : CardsById κ)
    (level : List (Card κ)) (parentCardId : Option Bytes) (order : CardListOrder)
    (includeCount : Bool) : ContextData κ where
  project := project
  currentParentCardId := parentCardId
  breadcrumbs := breadcrumbs project cards parentCardId
  cards := itemsOf (childCountByParent walk cards) includeCount (sortCardsByOrder level order)

def requestedParent (parentRaw : Bytes) : Option Bytes :=
  if parentRaw = [] then none else normalizeParentId (some parentRaw)

/-- `GET /cards/context`. -/
def handleCardsContext (walk : CardsById κ → CardsById κ) (repos : Repos κ) (query : Bytes) :
    Response κ :=
  let projectId := queryParamValue query (ascii "project_id")
  if projectId = [] then .badRequest (ascii "Missing project_id.")
  else
    match repos.project projectId with
    | none => .notFound (ascii "Project not found.")
    | some project =>
      let cards := cardsById (repos.listAll projectId)
      let parentCardId := requestedParent (queryParamValue query (ascii "parent_card_id"))
      if parentCardId.any fun id => (find cards id).isNone then
        .notFound (ascii "Parent card not found.")
      else
        match parseCardOrderParam (queryParamValue query (ascii "order")) .treeDefault with
        | .error message => .badRequest message
        | .ok order =>
          match parseCountParam (queryParamValue query (ascii "count")) with
          | .error message => .badRequest message
          | .ok includeCount =>
            .ok (contextData walk project cards (levelCards repos projectId parentCardId).rows
              parentCardId order includeCount)

end Answer

/-! Comparisons -/

section Comparisons
variable {κ : Type u}

theorem weak_compareTitleCiThenId : Weak (compareTitleCiThenId (κ := κ)) :=
  weak_thenBy (linear_lt Bytes) (weak_byKey (linear_lt Bytes))

theorem cardId_of_compareTitle {a b : Card κ} (h : Ties compareTitleCiThenId a b) :
    a.cardId = b.cardId :=
  (ties_byKey (linear_lt Bytes)).mp ((ties_thenBy (linear_lt Bytes)).mp h).2

theorem eq_of_cardId {cards : CardRows κ} {a b : Card κ} (ha : a ∈ cards.rows)
    (hb : b ∈ cards.rows) (h : a.cardId = b.cardId) : a = b :=
  List.inj_on_of_nodup_map cards.nodup ha hb h

variable [LinearOrder κ]

theorem weak_before (order : CardListOrder) : Weak (before (κ := κ) order) := by
  cases order with
  | treeDefault =>
    exact weak_thenBy (linear_lt κ) (weak_thenBy (linear_gt Int) weak_compareTitleCiThenId)
  | updatedDesc =>
    exact weak_thenBy (linear_gt Int) (weak_thenBy (linear_gt Int) weak_compareTitleCiThenId)
  | titleAsc => exact weak_compareTitleCiThenId

/-- Every order comes down to the id. -/
theorem cardId_of_ties {order : CardListOrder} {a b : Card κ} (h : Ties (before order) a b) :
    a.cardId = b.cardId := by
  cases order with
  | treeDefault =>
    have hrest := ((ties_thenBy (linear_lt κ)).mp h).2
    exact cardId_of_compareTitle ((ties_thenBy (linear_gt Int)).mp hrest).2
  | updatedDesc =>
    have hrest := ((ties_thenBy (linear_gt Int)).mp h).2
    exact cardId_of_compareTitle ((ties_thenBy (linear_gt Int)).mp hrest).2
  | titleAsc => exact cardId_of_compareTitle h

theorem sortCardsByOrder_perm {cards cards' : CardRows κ} (h : cards.rows.Perm cards'.rows)
    (order : CardListOrder) :
    sortCardsByOrder cards.rows order = sortCardsByOrder cards'.rows order :=
  stableSort_eq_of_perm (weak_before order) h fun _ ha _ hb hties =>
    eq_of_cardId ha hb (cardId_of_ties hties)

end Comparisons

/-! Cards by their ids -/

section Lookup
variable {κ : Type u}

theorem nodup_cardsById (cards : CardRows κ) : ((cardsById cards).map Prod.fst).Nodup := by
  rw [cardsById, List.map_map]
  exact cards.nodup.sublist (List.filter_sublist.map _)

theorem mem_cardsById {cards : CardRows κ} {id : Bytes} {card : Card κ} :
    (id, card) ∈ cardsById cards ↔
      card ∈ cards.rows ∧ card.deletedAt = none ∧ card.cardId = id := by
  rw [cardsById, List.mem_map]
  constructor
  · rintro ⟨other, hmem, heq⟩
    obtain ⟨rfl, rfl⟩ := Prod.mk.inj heq
    obtain ⟨hrow, hlive⟩ := List.mem_filter.mp hmem
    exact ⟨hrow, Option.isNone_iff_eq_none.mp hlive, rfl⟩
  · rintro ⟨hrow, hlive, rfl⟩
    exact ⟨card, List.mem_filter.mpr ⟨hrow, Option.isNone_iff_eq_none.mpr hlive⟩, rfl⟩

theorem find_cardsById {cards : CardRows κ} {id : Bytes} {card : Card κ} :
    find (cardsById cards) id = some card ↔
      card ∈ cards.rows ∧ card.deletedAt = none ∧ card.cardId = id := by
  rw [find, ← Assoc.mem_iff_lookup (nodup_cardsById cards), mem_cardsById]

theorem find_cardsById_perm {cards cards' : CardRows κ} (h : cards.rows.Perm cards'.rows)
    (id : Bytes) : find (cardsById cards) id = find (cardsById cards') id :=
  Assoc.lookup_eq_of_perm (nodup_cardsById cards) ((h.filter _).map _) id

end Lookup

/-! Counting -/

section Counts
variable {κ : Type u} {cards cards' : CardsById κ}

def isChildOf (parentId : Bytes) (e : Bytes × Card κ) : Bool :=
  normalizeParentId e.2.parentCardId = some parentId

theorem lookup_countChild (counts : List (Bytes × Nat)) (e : Bytes × Card κ) (id : Bytes) :
    ((countChild cards counts e).lookup id).getD 0 =
      (counts.lookup id).getD 0 +
        if (find cards id).isSome ∧ isChildOf id e = true then 1 else 0 := by
  unfold countChild isChildOf
  cases hparent : normalizeParentId e.2.parentCardId with
  | none => simp
  | some parentId =>
    by_cases hid : parentId = id
    · subst hid
      by_cases hlive : (find cards parentId).isSome
      · simp [hlive, Assoc.lookup_upsert]
      · simp [hlive]
    · by_cases hlive : (find cards parentId).isSome
      · simp [hlive, Assoc.lookup_upsert, hid]
      · simp [hlive, hid]

/-- What is counted below a live card. -/
theorem lookup_foldl_countChild (l : List (Bytes × Card κ)) (id : Bytes) :
    ((l.foldl (countChild cards) []).lookup id).getD 0 =
      if (find cards id).isSome then l.countP (isChildOf id) else 0 := by
  induction l using List.reverseRecOn with
  | nil => simp
  | append_singleton l e ih =>
    rw [List.foldl_append, List.foldl_cons, List.foldl_nil, lookup_countChild, ih,
      List.countP_append, List.countP_singleton]
    by_cases hlive : (find cards id).isSome <;> simp [hlive]

theorem lookup_childCountByParent {walk : CardsById κ → CardsById κ}
    (hwalk : ∀ l, (walk l).Perm l) (id : Bytes) :
    ((childCountByParent walk cards).lookup id).getD 0 =
      if (find cards id).isSome then cards.countP (isChildOf id) else 0 := by
  rw [childCountByParent, lookup_foldl_countChild, (hwalk cards).countP_eq]

end Counts

/-! The way down -/

section Chains
variable {κ : Type u}

/-- The live card above a card. -/
def above (cards : CardsById κ) (card : Card κ) : Option (Card κ) :=
  (normalizeParentId card.parentCardId).bind (find cards)

theorem chain_eq (cards : CardsById κ) (guard : Nat) (cursor : Option Bytes) :
    chain cards guard cursor = Ancestry.climb (above cards) guard (cursor.bind (find cards)) := by
  induction guard generalizing cursor with
  | zero => rfl
  | succ guard ih =>
    cases cursor with
    | none => rfl
    | some cursorId =>
      rw [chain, Option.bind_some]
      cases find cards cursorId with
      | none => rfl
      | some card => exact congrArg (card :: ·) (ih _)

theorem chain_congr {cards cards' : CardsById κ} (h : ∀ id, find cards id = find cards' id)
    (guard : Nat) (cursor : Option Bytes) :
    chain cards guard cursor = chain cards' guard cursor := by
  have hfind : find cards = find cards' := funext h
  have habove : above cards = above cards' := by
    funext card
    rw [above, above, hfind]
  rw [chain_eq, chain_eq, habove, hfind]

end Chains

/-! Rows in any order -/

section Same
variable {κ : Type u} {repos repos' : Repos κ}

/-- Stores with the same rows. -/
structure Same (repos repos' : Repos κ) : Prop where
  project : ∀ id, repos.project id = repos'.project id
  listAll : ∀ id, (repos.listAll id).rows.Perm (repos'.listAll id).rows
  listRoots : ∀ id, (repos.listRoots id).rows.Perm (repos'.listRoots id).rows
  listChildren : ∀ id parentId,
    (repos.listChildren id parentId).rows.Perm (repos'.listChildren id parentId).rows

theorem Same.levelCards (h : Same repos repos') (projectId : Bytes)
    (parentCardId : Option Bytes) :
    (levelCards repos projectId parentCardId).rows.Perm
      (CardContext.levelCards repos' projectId parentCardId).rows := by
  cases parentCardId with
  | none => exact h.listRoots projectId
  | some parentId => exact h.listChildren projectId parentId

theorem itemsOf_congr {counts counts' : List (Bytes × Nat)}
    (h : ∀ id, (counts.lookup id).getD 0 = (counts'.lookup id).getD 0) (includeCount : Bool)
    (level : List (Card κ)) :
    itemsOf counts includeCount level = itemsOf counts' includeCount level := by
  rw [itemsOf, itemsOf]
  refine List.map_congr_left fun card _ => ?_
  rw [h]

end Same

/-! A store of two cards -/

def topCard : Card Int where
  cardId := ascii "a"
  projectId := ascii "p"
  title := ascii "Top"
  relPath := ascii "a.md"
  sortKey := 1
  createdAt := 10
  updatedAt := 20
  parentCardId := none
  deletedAt := none

/-- Below the first, which it names with a blank around it. -/
def lowerCard : Card Int :=
  { topCard with cardId := ascii "b", title := ascii "Lower", parentCardId := some (ascii " a ") }

theorem two_ids : ([topCard, lowerCard].map Card.cardId).Nodup := by decide

def twoCards : CardRows Int := ⟨[topCard, lowerCard], two_ids⟩

theorem two_ids_reversed : ([lowerCard, topCard].map Card.cardId).Nodup := by decide

def twoCardsReversed : CardRows Int := ⟨[lowerCard, topCard], two_ids_reversed⟩

def CardRows.select (cards : CardRows Int) (keep : Card Int → Bool) : CardRows Int :=
  ⟨cards.rows.filter keep, cards.nodup.sublist (List.filter_sublist.map _)⟩

def storeOf (cards : CardRows Int) : Repos Int where
  project id := if id = ascii "p" then some ⟨id, ascii "Plan"⟩ else none
  listAll _ := cards
  listRoots _ := cards.select fun card => card.parentCardId = none
  listChildren _ parentId := cards.select fun card => card.parentCardId = some parentId

def lowerQuery : Bytes := ascii "project_id=p&parent_card_id=b&count=1"

def lowerData : ContextData Int :=
  contextData id ⟨ascii "p", ascii "Plan"⟩ (cardsById twoCards)
    (levelCards (storeOf twoCards) (ascii "p") (some (ascii "b"))).rows (some (ascii "b"))
    .treeDefault true

theorem lower_answered : handleCardsContext id (storeOf twoCards) lowerQuery = .ok lowerData := rfl

def rootsQuery : Bytes := ascii "project_id=p&order=title_asc&count=1"

def rootsData : ContextData Int :=
  contextData id ⟨ascii "p", ascii "Plan"⟩ (cardsById twoCards)
    (levelCards (storeOf twoCards) (ascii "p") none).rows none .titleAsc true

theorem roots_answered : handleCardsContext id (storeOf twoCards) rootsQuery = .ok rootsData := rfl

/-! What is answered -/

def liveCards {κ : Type u} (cards : CardRows κ) : List (Card κ) :=
  cards.rows.filter fun card => card.deletedAt.isNone

section Answers
variable {κ : Type u}

/-- The way up from the first card of `path`, as far as 1024 cards go. -/
structure Trail (cards : CardRows κ) (path : List (Card κ)) : Prop where
  live : ∀ card ∈ path, card ∈ liveCards cards
  linked : path.IsChain fun card parent => above (cardsById cards) card = some parent
  whole : ∀ line, Ancestry.Line (above (cardsById cards)) path.head? line → path = line.take 1024
  endless : (∀ line, ¬ Ancestry.Line (above (cardsById cards)) path.head? line) →
    path.length = 1024
  cycle : (liveCards cards).length < 1024 →
    (path.Nodup ↔ Ancestry.Line (above (cardsById cards)) path.head? path)

theorem live_of_find {cards : CardRows κ} {id : Bytes} {card : Card κ}
    (h : find (cardsById cards) id = some card) : card ∈ liveCards cards := by
  obtain ⟨hrow, hlive, -⟩ := find_cardsById.mp h
  exact List.mem_filter.mpr ⟨hrow, Option.isNone_iff_eq_none.mpr hlive⟩

theorem live_of_bind {cards : CardRows κ} {cursor : Option Bytes} {card : Card κ}
    (h : card ∈ cursor.bind (find (cardsById cards))) : card ∈ liveCards cards := by
  obtain ⟨id, -, hfind⟩ := Option.bind_eq_some_iff.mp h
  exact live_of_find hfind

theorem trail_chain (cards : CardRows κ) (cursor : Option Bytes) :
    Trail cards (chain (cardsById cards) 1024 cursor) := by
  have hlive : ∀ card ∈ chain (cardsById cards) 1024 cursor, card ∈ liveCards cards := by
    rw [chain_eq]
    exact Ancestry.climb_forall (fun _ => live_of_bind) fun _ _ _ => live_of_bind
  have hhead : (chain (cardsById cards) 1024 cursor).head? =
      cursor.bind (find (cardsById cards)) := by
    rw [chain_eq]
    exact Ancestry.head?_climb 1023 _
  refine ⟨hlive, ?_, ?_, ?_, ?_⟩
  · rw [chain_eq]
    exact Ancestry.isChain_climb 1024 _
  · intro line hline
    rw [hhead] at hline
    rw [chain_eq, Ancestry.climb_of_line hline]
  · intro hendless
    rw [hhead] at hendless
    rw [chain_eq, Ancestry.length_climb_of_endless hendless]
  · intro hfew
    rw [hhead]
    rw [chain_eq] at hlive ⊢
    exact Ancestry.nodup_climb_iff hlive hfew

variable [LinearOrder κ] {walk walk' : CardsById κ → CardsById κ} {repos repos' : Repos κ}
  {query : Bytes} {data : ContextData κ}

/-- How an answer comes about. -/
theorem handleCardsContext_ok (h : handleCardsContext walk repos query = .ok data) :
    ∃ projectId parentCardId project order includeCount,
      projectId = queryParamValue query (ascii "project_id") ∧
      parentCardId = requestedParent (queryParamValue query (ascii "parent_card_id")) ∧
      repos.project projectId = some project ∧
      parseCardOrderParam (queryParamValue query (ascii "order")) .treeDefault = .ok order ∧
      parseCountParam (queryParamValue query (ascii "count")) = .ok includeCount ∧
      (∀ id ∈ parentCardId, ∃ card, find (cardsById (repos.listAll projectId)) id = some card) ∧
      data = contextData walk project (cardsById (repos.listAll projectId))
        (levelCards repos projectId parentCardId).rows parentCardId order includeCount := by
  simp only [handleCardsContext] at h
  split at h
  case isTrue => cases h
  case isFalse =>
    split at h
    case h_1 => cases h
    case h_2 project hproject =>
      split at h
      case isTrue => cases h
      case isFalse hparent =>
        split at h
        case h_1 => cases h
        case h_2 order horder =>
          split at h
          case h_1 => cases h
          case h_2 includeCount hcount =>
            cases h
            refine ⟨_, _, project, order, includeCount, rfl, rfl, hproject, horder, hcount,
              fun id hid => ?_, rfl⟩
            rw [Option.any_eq_true] at hparent
            by_contra hnone
            refine hparent ⟨id, hid, ?_⟩
            rw [Option.isNone_iff_eq_none, Option.eq_none_iff_forall_ne_some]
            exact fun card hcard => hnone ⟨card, hcard⟩

/-- The breadcrumbs are the project and the way from the top down to the parent, for links that
may also lead nowhere or round. -/
theorem context_breadcrumbs (h : handleCardsContext walk repos query = .ok data) :
    ∃ path : List (Card κ),
      data.breadcrumbs =
        .project data.project.projectId data.project.name :: path.reverse.map Crumb.ofCard ∧
      path.head?.map Card.cardId = data.currentParentCardId ∧
      data.currentParentCardId =
        requestedParent (queryParamValue query (ascii "parent_card_id")) ∧
      Trail (repos.listAll (queryParamValue query (ascii "project_id"))) path := by
  obtain ⟨projectId, parentCardId, project, order, includeCount, rfl, hparent, -, -, -, hfound,
    rfl⟩ := handleCardsContext_ok h
  refine ⟨chain _ 1024 parentCardId, rfl, ?_, hparent, trail_chain _ _⟩
  rw [chain_eq]
  refine (congrArg _ (Ancestry.head?_climb 1023 _)).trans ?_
  cases parentCardId with
  | none => rfl
  | some id =>
    obtain ⟨card, hcard⟩ := hfound id rfl
    rw [Option.bind_some, hcard]
    exact congrArg some (find_cardsById.mp hcard).2.2

theorem context_breadcrumbs_lower :
    lowerData.breadcrumbs = [.project (ascii "p") (ascii "Plan"), .card (ascii "a") (ascii "Top"),
      .card (ascii "b") (ascii "Lower")] ∧
    ∃ path : List (Card Int),
      lowerData.breadcrumbs = .project lowerData.project.projectId lowerData.project.name ::
        path.reverse.map Crumb.ofCard ∧
      path.head?.map Card.cardId = lowerData.currentParentCardId ∧
      lowerData.currentParentCardId =
        requestedParent (queryParamValue lowerQuery (ascii "parent_card_id")) ∧
      Trail twoCards path :=
  ⟨rfl, context_breadcrumbs lower_answered⟩

theorem contextData_congr {cards cards' level level' : CardRows κ}
    (hwalk : ∀ l, (walk l).Perm l) (hwalk' : ∀ l, (walk' l).Perm l)
    (hcards : cards.rows.Perm cards'.rows) (hlevel : level.rows.Perm level'.rows)
    (project : Project) (parentCardId : Option Bytes) (order : CardListOrder)
    (includeCount : Bool) :
    contextData walk project (cardsById cards) level.rows parentCardId order includeCount =
      contextData walk' project (cardsById cards') level'.rows parentCardId order
        includeCount := by
  have hfind := find_cardsById_perm hcards
  have hcounts : ∀ id, ((childCountByParent walk (cardsById cards)).lookup id).getD 0 =
      ((childCountByParent walk' (cardsById cards')).lookup id).getD 0 := by
    intro id
    have hperm : (cardsById cards).Perm (cardsById cards') := (hcards.filter _).map _
    rw [lookup_childCountByParent hwalk, lookup_childCountByParent hwalk', hfind,
      hperm.countP_eq]
  rw [contextData, contextData, breadcrumbs, breadcrumbs, chain_congr hfind,
    sortCardsByOrder_perm hlevel, itemsOf_congr hcounts]

/-- The answer depends on what is stored alone: not on the order in which the store returns its
rows, nor on the one in which a map is walked. -/
theorem context_canonical (hsame : Same repos repos') (hwalk : ∀ l, (walk l).Perm l)
    (hwalk' : ∀ l, (walk' l).Perm l) (query : Bytes) :
    handleCardsContext walk repos query = handleCardsContext walk' repos' query := by
  have hfind : ∀ projectId id, find (cardsById (repos.listAll projectId)) id =
      find (cardsById (repos'.listAll projectId)) id :=
    fun projectId => find_cardsById_perm (hsame.listAll projectId)
  have hdata := fun projectId parentCardId project order includeCount =>
    contextData_congr hwalk hwalk' (hsame.listAll projectId)
      (hsame.levelCards projectId parentCardId) project parentCardId order includeCount
  simp only [handleCardsContext, hsame.project, hfind, hdata]

theorem select_perm {cards cards' : CardRows Int} (h : cards.rows.Perm cards'.rows)
    (keep : Card Int → Bool) : (cards.select keep).rows.Perm (cards'.select keep).rows :=
  h.filter keep

theorem two_perm : twoCards.rows.Perm twoCardsReversed.rows := .swap _ _ _

theorem two_same : Same (storeOf twoCards) (storeOf twoCardsReversed) where
  project _ := rfl
  listAll _ := two_perm
  listRoots _ := select_perm two_perm _
  listChildren _ _ := select_perm two_perm _

theorem context_canonical_reversed :
    handleCardsContext id (storeOf twoCards) rootsQuery =
      handleCardsContext List.reverse (storeOf twoCardsReversed) rootsQuery :=
  context_canonical two_same (fun l => .refl l) List.reverse_perm rootsQuery

/-! A level -/

/-- Cards of different ids in one order stand strictly after each other. -/
theorem ascend_sortCardsByOrder (cards : CardRows κ) (order : CardListOrder) :
    (sortCardsByOrder cards.rows order).Pairwise fun a b => before order a b = true := by
  have hperm := stableSort_perm (before order) cards.rows
  have hids : ((sortCardsByOrder cards.rows order).map Card.cardId).Nodup :=
    (hperm.map Card.cardId).nodup_iff.mpr cards.nodup
  have hsorted := pairwise_stableSort (weak_before order) cards.rows
  refine (hsorted.and (List.pairwise_map.mp hids)).imp fun ⟨hba, hne⟩ => ?_
  rw [← Bool.not_eq_false]
  exact fun hab => hne (cardId_of_ties ⟨hab, hba⟩)

/-- The cards are the live ones of the level, each once and in the order that is asked for, with
the number of live cards that each of them is above. -/
theorem context_cards (hwalk : ∀ l, (walk l).Perm l)
    (h : handleCardsContext walk repos query = .ok data) :
    ∃ projectId order includeCount,
      projectId = queryParamValue query (ascii "project_id") ∧
      parseCardOrderParam (queryParamValue query (ascii "order")) .treeDefault = .ok order ∧
      parseCountParam (queryParamValue query (ascii "count")) = .ok includeCount ∧
      (data.cards.map Item.card).Perm
        (liveCards (levelCards repos projectId data.currentParentCardId)) ∧
      (data.cards.Pairwise fun a b => before order a.card b.card = true) ∧
      ∀ item ∈ data.cards, item.card ∈ liveCards (repos.listAll projectId) →
        item.childCount =
          if includeCount then
            some ((liveCards (repos.listAll projectId)).countP fun card =>
              normalizeParentId card.parentCardId = some item.card.cardId)
          else none := by
  obtain ⟨projectId, parentCardId, project, order, includeCount, hid, -, -, horder, hcount, -,
    rfl⟩ := handleCardsContext_ok h
  have hmap : ∀ counts (level : List (Card κ)), (itemsOf counts includeCount level).map Item.card =
      level.filter fun card => card.deletedAt.isNone := by
    intro counts level
    rw [itemsOf, List.map_map]
    exact List.map_id _
  refine ⟨projectId, order, includeCount, hid, horder, hcount, ?_, ?_, ?_⟩
  · rw [contextData, hmap]
    exact (stableSort_perm _ _).filter _
  · have hascend := (ascend_sortCardsByOrder (levelCards repos projectId parentCardId) order).filter
      fun card => card.deletedAt.isNone
    rw [← hmap (childCountByParent walk (cardsById (repos.listAll projectId)))] at hascend
    exact List.pairwise_map.mp hascend
  · intro item hitem hlive
    obtain ⟨card, -, rfl⟩ := List.mem_map.mp hitem
    obtain ⟨hrow, halive⟩ := List.mem_filter.mp hlive
    have hfind : find (cardsById (repos.listAll projectId)) card.cardId = some card :=
      find_cardsById.mpr ⟨hrow, Option.isNone_iff_eq_none.mp halive, rfl⟩
    dsimp only
    rw [lookup_childCountByParent hwalk, hfind, Option.isSome_some, if_pos rfl, cardsById,
      List.countP_map]
    rfl

theorem context_cards_roots :
    ∃ projectId order includeCount,
      projectId = queryParamValue rootsQuery (ascii "project_id") ∧
      parseCardOrderParam (queryParamValue rootsQuery (ascii "order")) .treeDefault = .ok order ∧
      parseCountParam (queryParamValue rootsQuery (ascii "count")) = .ok includeCount ∧
      (rootsData.cards.map Item.card).Perm
        (liveCards (levelCards (storeOf twoCards) projectId rootsData.currentParentCardId)) ∧
      (rootsData.cards.Pairwise fun a b => before order a.card b.card = true) ∧
      ∀ item ∈ rootsData.cards, item.card ∈ liveCards twoCards →
        item.childCount =
          if includeCount then
            some ((liveCards twoCards).countP fun card =>
              normalizeParentId card.parentCardId = some item.card.cardId)
          else none :=
  context_cards (fun l => .refl l) roots_answered

end Answers

end CardContext

end HolderDaemon
