import HolderDaemon.Bytes

/-!
The short ids of cards that `holderctl` shows (`display_card_ids` in `cli/commands/Support.cpp`):
prefixes that grow, group by group, until no two different ids are shown as the same.
-/

set_option autoImplicit false

open Bytes

namespace HolderDaemon

namespace CardIds

/-- A card id and how much of it is shown. -/
structure Entry where
  cardId : Bytes
  length : Nat
  deriving DecidableEq

def Entry.shown (e : Entry) : Bytes := e.cardId.take e.length

/-- The entries that are shown as `text`. -/
def group (entries : List Entry) (text : Bytes) : List Entry :=
  entries.filter fun e => e.shown = text

/-- An entry grows where its group has two different ids, as far as it can. -/
def grow (entries : List Entry) (e : Entry) : Entry :=
  let ids := (group entries e.shown).map Entry.cardId
  if ids.dedup.length < 2 then e
  else if e.length < e.cardId.length then { e with length := e.length + 1 } else e

/-- One turn of the loop. -/
def round (entries : List Entry) : List Entry := entries.map (grow entries)

/-- How much more can be shown. -/
def hidden (entries : List Entry) : Nat :=
  (entries.map fun e => e.cardId.length - e.length).sum

theorem hidden_grow (entries : List Entry) (e : Entry) :
    (grow entries e).cardId.length - (grow entries e).length ≤ e.cardId.length - e.length ∧
      (grow entries e ≠ e →
        (grow entries e).cardId.length - (grow entries e).length < e.cardId.length - e.length) := by
  unfold grow
  dsimp only
  split
  · exact ⟨Nat.le_refl _, fun h => absurd rfl h⟩
  · split
    · dsimp only
      exact ⟨by omega, fun _ => by omega⟩
    · exact ⟨Nat.le_refl _, fun h => absurd rfl h⟩

theorem hidden_map_lt {f : Entry → Entry}
    (hle : ∀ e, (f e).cardId.length - (f e).length ≤ e.cardId.length - e.length)
    (hlt : ∀ e, f e ≠ e → (f e).cardId.length - (f e).length < e.cardId.length - e.length)
    {entries : List Entry} (h : entries.map f ≠ entries) :
    hidden (entries.map f) < hidden entries := by
  induction entries with
  | nil => exact absurd rfl h
  | cons e entries ih =>
    have hmono : hidden (entries.map f) ≤ hidden entries := by
      by_cases hsame : entries.map f = entries
      · rw [hsame]
      · exact Nat.le_of_lt (ih hsame)
    simp only [hidden, List.map_cons, List.sum_cons] at ih hmono ⊢
    have hhead := hle e
    by_cases hsame : f e = e
    · have htail : entries.map f ≠ entries := fun htail =>
        h (by rw [List.map_cons, hsame, htail])
      have hrest := ih htail
      omega
    · have hmore := hlt e hsame
      omega

theorem hidden_round {entries : List Entry} (h : round entries ≠ entries) :
    hidden (round entries) < hidden entries :=
  hidden_map_lt (fun e => (hidden_grow entries e).1) (fun e => (hidden_grow entries e).2) h

/-- The loop, until nothing has grown. -/
def lengthen (entries : List Entry) : List Entry :=
  if round entries = entries then entries else lengthen (round entries)
termination_by hidden entries
decreasing_by exact hidden_round ‹_›

section Display
variable (isValidUuid : Bytes → Bool)

def initialEntry (cardId : Bytes) : Entry where
  cardId
  length := if isValidUuid cardId then min 8 cardId.length else cardId.length

def displayCardIds (cardIds : List Bytes) : List Bytes :=
  (lengthen (cardIds.map (initialEntry isValidUuid))).map Entry.shown

end Display

/-! Runs of the loop -/

theorem lengthen_round (entries : List Entry) :
    round (lengthen entries) = lengthen entries := by
  induction entries using lengthen.induct with
  | case1 entries h => rw [lengthen, if_pos h, h]
  | case2 entries h ih =>
    rw [lengthen, if_neg h]
    exact ih

theorem lengthen_invariant {motive : List Entry → Prop}
    (hround : ∀ entries, motive entries → motive (round entries)) {entries : List Entry}
    (h : motive entries) : motive (lengthen entries) := by
  induction entries using lengthen.induct with
  | case1 entries hstop =>
    rw [lengthen, if_pos hstop]
    exact h
  | case2 entries hgo ih =>
    rw [lengthen, if_neg hgo]
    exact ih (hround entries h)

/-- The entries of these ids, in their order; an id has one length, wherever it stands. -/
def Lengths (cardIds : List Bytes) (entries : List Entry) : Prop :=
  ∃ length : Bytes → Nat, entries = cardIds.map fun cardId => ⟨cardId, length cardId⟩

theorem Lengths.round {cardIds : List Bytes} {entries : List Entry} (h : Lengths cardIds entries) :
    Lengths cardIds (round entries) := by
  obtain ⟨length, hentries⟩ := h
  refine ⟨fun cardId => (grow entries ⟨cardId, length cardId⟩).length, ?_⟩
  have hid : ∀ e, (grow entries e).cardId = e.cardId := by
    intro e
    unfold grow
    dsimp only
    split
    · rfl
    · split <;> rfl
  unfold CardIds.round
  conv_lhs => arg 2; rw [hentries]
  rw [List.map_map]
  refine List.map_congr_left fun cardId _ => ?_
  rw [Function.comp_apply, Entry.mk.injEq]
  exact ⟨hid _, rfl⟩

/-- Where nothing grows, two entries that are shown as the same have one id. -/
theorem cardId_eq_of_shown_eq {entries : List Entry} (h : round entries = entries) {e f : Entry}
    (he : e ∈ entries) (hf : f ∈ entries) (hshown : e.shown = f.shown) : e.cardId = f.cardId := by
  by_contra hne
  have hstill : ∀ d ∈ entries, grow entries d = d := by
    intro d hd
    obtain ⟨i, hi, rfl⟩ := List.mem_iff_getElem.mp hd
    have hget := List.getElem_of_eq h (by rw [h]; exact hi)
    simpa only [round, List.getElem_map] using hget
  have hgroup : ∀ d ∈ entries, d.shown = e.shown → d.shown = d.cardId := by
    intro d hd hsame
    have hids : 2 ≤ ((group entries d.shown).map Entry.cardId).dedup.length := by
      have hsub : [e.cardId, f.cardId] ⊆ ((group entries d.shown).map Entry.cardId).dedup := by
        intro cardId hmem
        rw [List.mem_dedup, List.mem_map]
        rcases List.mem_cons.mp hmem with rfl | hmem
        · exact ⟨e, List.mem_filter.mpr ⟨he, by simp [hsame]⟩, rfl⟩
        · rw [List.mem_singleton.mp hmem]
          exact ⟨f, List.mem_filter.mpr ⟨hf, by simp [hsame, hshown]⟩, rfl⟩
      exact (List.subperm_of_subset (by simpa using hne) hsub).length_le
    have hgrow := hstill d hd
    unfold grow at hgrow
    dsimp only at hgrow
    rw [if_neg (by omega)] at hgrow
    split at hgrow
    · exact absurd (congrArg Entry.length hgrow) (Nat.succ_ne_self _)
    · exact List.take_of_length_le (by omega)
  exact hne ((hgroup e he rfl).symm.trans (hshown.trans (hgroup f hf hshown.symm)))

/-- Every id is shown as a prefix of its own, in the order of the ids: equal ids as equal prefixes,
and different ids as different ones. -/
theorem display_unambiguous (isValidUuid : Bytes → Bool) (cardIds : List Bytes) :
    ∃ shown : Bytes → Bytes, displayCardIds isValidUuid cardIds = cardIds.map shown ∧
      (∀ cardId ∈ cardIds, shown cardId <+: cardId) ∧
      ∀ a ∈ cardIds, ∀ b ∈ cardIds, shown a = shown b → a = b := by
  have hstart : Lengths cardIds (cardIds.map (initialEntry isValidUuid)) := ⟨_, rfl⟩
  obtain ⟨length, hentries⟩ :=
    @lengthen_invariant (Lengths cardIds) (fun _ => Lengths.round) _ hstart
  have hstop := lengthen_round (cardIds.map (initialEntry isValidUuid))
  rw [hentries] at hstop
  refine ⟨fun cardId => cardId.take (length cardId), ?_, fun cardId _ => List.take_prefix _ _,
    fun a ha b hb hshown => ?_⟩
  · rw [displayCardIds, hentries, List.map_map]
    rfl
  · exact cardId_eq_of_shown_eq hstop (List.mem_map_of_mem ha) (List.mem_map_of_mem hb) hshown

end CardIds

end HolderDaemon
