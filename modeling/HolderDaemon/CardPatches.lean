import HolderDaemon.AiDurability
import HolderDaemon.ObjectPatches
import HolderDaemon.Stages

/-!
PATCH of a card (`api/routes/CardRoutes.cpp`): the content is written first, and only then the
parent and the sort key are read and the card is moved.

The card store is not part of the daemon's sources. What is relied on of it is that a call that
throws has not changed the card.
-/

set_option autoImplicit false

open Bytes
open Json (of_bind_ok)

namespace HolderDaemon

namespace CardPatches

open AiDurability (givenString)
open Stages (orRefuse)

structure Card (Double : Type) where
  title : Bytes
  content : Bytes
  type : Bytes
  parentCardId : Option Bytes
  sortKey : Option Double
  tags : List Bytes
  deriving DecidableEq

/-- `CardStore`, at the card of the request. -/
structure CardStore (Double : Type) where
  updateContent : Bytes → Option Bytes → Int64 → Card Double → Except Bytes (Card Double)
  move : Bool → Option Bytes → Option Double → Int64 → Card Double → Except Bytes (Card Double)

/-- The conversions are those of `get<double>()`. -/
structure Request (Double : Type) extends ObjectPatches.PatchRequest where
  doubleOfInt : Int → Double
  doubleOfText : Bytes → Double

inductive Stage (Double : Type) where
  | refuse (what : Bytes)
  | updateContent (content : Bytes) (title : Option Bytes) (updatedAt : Int64)
  | move (hasParentCardId : Bool) (parentCardId : Option Bytes) (sortKey : Option Double)
      (updatedAt : Int64)
  deriving DecidableEq

section Handler
variable {Double : Type}

def Request.getDouble (r : Request Double) : Json → Except Bytes Double
  | .int i => .ok (r.doubleOfInt i)
  | .float text => .ok (r.doubleOfText text)
  | j => .error (j.typeError "number")

/-- The reads before the first write: `updated_at`, and the content with its title. -/
def Request.readContent (r : Request Double) (body : Json) :
    Except Bytes (Int64 × Option (Bytes × Option Bytes)) := do
  match body.field? (ascii "updated_at") with
  | none => .error (ascii "Missing required fields.")
  | some time =>
    let hasContent := body.contains (ascii "content")
    let hasTitle := body.contains (ascii "title")
    if !hasContent && !hasTitle && !body.contains (ascii "parent_card_id") &&
        !body.contains (ascii "sort_key") then
      .error (ascii "No updatable fields supplied.")
    else
      let title ← givenString body "title"
      let updatedAt ← r.getTime time
      if hasContent || hasTitle then
        match body.field? (ascii "content") with
        | none => .error (ascii "content is required when updating title.")
        | some content => .ok (updatedAt, some (← content.getString, title))
      else .ok (updatedAt, none)

/-- The reads after the content has been written. -/
def Request.readMove (r : Request Double) (body : Json) (updatedAt : Int64) :
    Except Bytes (Option (Stage Double)) := do
  let hasParentCardId := body.contains (ascii "parent_card_id")
  let sortKeyField := body.field? (ascii "sort_key")
  if hasParentCardId || sortKeyField.isSome then
    let parentCardId ← givenString body "parent_card_id"
    let sortKey ← sortKeyField.mapM r.getDouble
    .ok (some (.move hasParentCardId parentCardId sortKey updatedAt))
  else .ok none

def Request.moveStages (r : Request Double) (body : Json) (updatedAt : Int64) :
    List (Stage Double) :=
  orRefuse .refuse ((r.readMove body updatedAt).map Option.toList)

def Request.readStages (r : Request Double) : Except Bytes (List (Stage Double)) := do
  let body ← r.body
  let (updatedAt, update) ← r.readContent body
  match update with
  | some (content, title) =>
    .ok (.updateContent content title updatedAt :: r.moveStages body updatedAt)
  | none => .ok (r.moveStages body updatedAt)

/-- What the handler does with the card, in its order. -/
def Request.stages (r : Request Double) : List (Stage Double) := orRefuse .refuse r.readStages

def CardStore.act (store : CardStore Double) :
    Stage Double → Card Double → Except Bytes (Card Double)
  | .refuse what, _ => .error what
  | .updateContent content title updatedAt, card =>
    store.updateContent content title updatedAt card
  | .move hasParentCardId parentCardId sortKey updatedAt, card =>
    store.move hasParentCardId parentCardId sortKey updatedAt card

/-- The text of the error, if any, and the card after the request. -/
def Request.patch (r : Request Double) (store : CardStore Double) (card : Card Double) :
    Except Bytes Unit × Card Double :=
  Stages.run store.act r.stages card

/-- The content is written and changes the card, and what comes after it throws. -/
def Request.HalfApplied (r : Request Double) (store : CardStore Double) (card : Card Double) :
    Prop :=
  ∃ content title updatedAt stage changed what,
    r.stages = [.updateContent content title updatedAt, stage] ∧
    store.updateContent content title updatedAt card = .ok changed ∧ changed ≠ card ∧
    store.act stage changed = .error what

theorem moveStages_length (r : Request Double) (body : Json) (updatedAt : Int64) :
    (r.moveStages body updatedAt).length ≤ 1 := by
  unfold Request.moveStages
  cases r.readMove body updatedAt with
  | error what => exact Nat.le_refl 1
  | ok move =>
    cases move with
    | none => exact Nat.zero_le 1
    | some stage => exact Nat.le_refl 1

/-- Only the content comes before another stage. -/
theorem stages_cons {r : Request Double} {first : Stage Double} {rest : List (Stage Double)}
    (h : r.stages = first :: rest) :
    rest = [] ∨ ∃ content title updatedAt stage,
      first = .updateContent content title updatedAt ∧ rest = [stage] := by
  unfold Request.stages at h
  cases hreads : r.readStages with
  | error what =>
    rw [hreads] at h
    cases h
    exact .inl rfl
  | ok stages =>
    rw [hreads] at h
    obtain ⟨body, -, hreads⟩ := of_bind_ok hreads
    obtain ⟨⟨updatedAt, update⟩, -, hreads⟩ := of_bind_ok hreads
    have hlength := moveStages_length r body updatedAt
    replace h : stages = first :: rest := h
    subst h
    cases update with
    | none =>
      replace hreads := Except.ok.inj hreads
      rw [hreads] at hlength
      exact .inl (List.eq_nil_of_length_eq_zero (Nat.le_zero.mp (Nat.le_of_succ_le_succ hlength)))
    | some pair =>
      obtain ⟨content, title⟩ := pair
      obtain ⟨rfl, hrest⟩ := List.cons.inj (Except.ok.inj hreads)
      rw [hrest] at hlength
      match rest, hlength with
      | [], _ => exact .inl rfl
      | [stage], _ => exact .inr ⟨content, title, updatedAt, stage, rfl, rfl⟩

/-- A request that is answered with an error has left the card as it was, exactly where it was not
stopped between its two writes. -/
theorem card_allOrNothing_iff (store : CardStore Double) (r : Request Double)
    (card : Card Double) :
    (∀ what, (r.patch store card).1 = .error what → (r.patch store card).2 = card) ↔
      ¬ r.HalfApplied store card := by
  have hstages := @Stages.allOrNothing_iff _ _ _ store.act _ id r.stages card
  refine hstages.trans ⟨fun h => ?_, fun h => ?_⟩
  · rintro ⟨content, title, updatedAt, stage, changed, what, hlist, hupdate, hne, hthrow⟩
    exact hne (h [.updateContent content title updatedAt] changed
      ⟨⟨changed, hupdate, rfl⟩, stage, [], what, hlist, hthrow⟩)
  · rintro done t ⟨hthrough, stage, rest, what, hlist, hthrow⟩
    cases done with
    | nil => exact hthrough.symm
    | cons first done =>
      rcases stages_cons hlist with hnil | ⟨content, title, updatedAt, last, rfl, hlast⟩
      · exact absurd hnil (List.append_ne_nil_of_right_ne_nil done (List.cons_ne_nil stage rest))
      · obtain ⟨rfl, rfl, rfl⟩ : done = [] ∧ stage = last ∧ rest = [] := by
          cases done with
          | nil =>
            obtain ⟨hstage, hrest⟩ := List.cons.inj hlast
            exact ⟨rfl, hstage, hrest⟩
          | cons second done =>
            have hend := (List.cons.inj hlast).2
            exact absurd hend
              (List.append_ne_nil_of_right_ne_nil done (List.cons_ne_nil stage rest))
        obtain ⟨changed, hupdate, rfl⟩ := hthrough
        by_contra hne
        exact h ⟨content, title, updatedAt, stage, changed, what, hlist, hupdate, hne, hthrow⟩

end Handler

/-! A sort key that is no number -/

/-- A store that takes whatever it is given. -/
def takingStore : CardStore Int where
  updateContent content title _ card := .ok { card with content, title := title.getD card.title }
  move hasParentCardId parentCardId sortKey _ card :=
    .ok { card with
      parentCardId := if hasParentCardId then parentCardId else card.parentCardId
      sortKey := sortKey.or card.sortKey }

def note : Card Int where
  title := ascii "Note"
  content := ascii "old"
  type := ascii "note"
  parentCardId := none
  sortKey := some 1
  tags := []

def misplaced : Request Int where
  body := .ok (.obj [(ascii "content", .str (ascii "new")),
    (ascii "sort_key", .str (ascii "first")), (ascii "updated_at", .int 2)])
  now := 2
  doubleOfInt i := i
  doubleOfText _ := 0

theorem patch_leaves_content :
    ¬ ∀ (store : CardStore Int) (r : Request Int) (card : Card Int) (what : Bytes),
      (r.patch store card).1 = .error what → (r.patch store card).2 = card := by
  intro h
  have hcard := h takingStore misplaced note
    (ascii "[json.exception.type_error.302] type must be number, but is string") (by decide +kernel)
  have hcontent : ((misplaced.patch takingStore note).2).content = ascii "new" := by
    decide +kernel
  rw [hcard] at hcontent
  exact absurd hcontent (by decide)

end CardPatches

end HolderDaemon
