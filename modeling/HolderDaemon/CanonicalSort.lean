import Mathlib

/-!
Sorting with a comparator that compares one key after another. Where only equal members tie,
the sorted list depends on the members alone and not on the order they came in.
-/

set_option autoImplicit false

namespace CanonicalSort

universe u v

/-- What a sort asks of the comparator `before` it is given. -/
structure Weak {α : Type u} (before : α → α → Bool) : Prop where
  asymm : ∀ a b, before a b = true → before b a = false
  trans : ∀ a b c, before b a = false → before c b = false → before c a = false

/-- Neither stands before the other. -/
def Ties {α : Type u} (before : α → α → Bool) (a b : α) : Prop :=
  before a b = false ∧ before b a = false

/-! Comparators -/

/-- A strict order in which different keys are comparable. -/
structure Linear {β : Type v} (lt : β → β → Prop) : Prop where
  irrefl : ∀ x, ¬ lt x x
  trans : ∀ x y z, lt x y → lt y z → lt x z
  total : ∀ x y, x ≠ y → lt x y ∨ lt y x

theorem linear_lt (β : Type v) [LT β] [LE β] [Std.IsLinearOrder β] [Std.LawfulOrderLT β] :
    Linear fun x y : β => x < y where
  irrefl _ := Std.lt_irrefl
  trans _ _ _ := Std.lt_trans
  total x y hne := by
    by_contra h
    rw [not_or] at h
    exact hne (Std.le_antisymm (Std.not_lt.mp h.2) (Std.not_lt.mp h.1))

theorem linear_gt (β : Type v) [LT β] [LE β] [Std.IsLinearOrder β] [Std.LawfulOrderLT β] :
    Linear fun x y : β => x > y where
  irrefl := (linear_lt β).irrefl
  trans x y z hxy hyz := (linear_lt β).trans z y x hyz hxy
  total x y hne := ((linear_lt β).total x y hne).symm

section Comparators
variable {α : Type u} {β : Type v} [DecidableEq β] (lt : β → β → Prop) [DecidableRel lt]

/-- By one key, and where that is the same by the rest of the comparison. -/
def thenBy (key : α → β) (next : α → α → Bool) (a b : α) : Bool :=
  if key a ≠ key b then decide (lt (key a) (key b)) else next a b

/-- The last key of a comparison. -/
def byKey (key : α → β) (a b : α) : Bool := decide (lt (key a) (key b))

variable {lt} {key : α → β} {next : α → α → Bool}

theorem thenBy_eq_false (hl : Linear lt) {a b : α} :
    thenBy lt key next a b = false ↔
      lt (key b) (key a) ∨ (key a = key b ∧ next a b = false) := by
  unfold thenBy
  split
  · rename_i hne
    rw [decide_eq_false_iff_not]
    constructor
    · exact fun h => .inl ((hl.total _ _ hne).resolve_left h)
    · rintro (h | ⟨heq, -⟩)
      · exact fun hab => hl.irrefl _ (hl.trans _ _ _ h hab)
      · exact absurd heq hne
  · rename_i heq
    rw [not_not] at heq
    constructor
    · exact fun h => .inr ⟨heq, h⟩
    · rintro (h | ⟨-, h⟩)
      · exact absurd (heq ▸ h) (hl.irrefl _)
      · exact h

theorem weak_thenBy (hl : Linear lt) (h : Weak next) : Weak (thenBy lt key next) where
  asymm a b hab := by
    rw [thenBy_eq_false hl]
    unfold thenBy at hab
    split at hab
    · exact .inl (of_decide_eq_true hab)
    · rename_i heq
      rw [not_not] at heq
      exact .inr ⟨heq.symm, h.asymm a b hab⟩
  trans a b c hba hcb := by
    rw [thenBy_eq_false hl] at hba hcb ⊢
    rcases hba with hab | ⟨hab, hn⟩
    · rcases hcb with hbc | ⟨hbc, -⟩
      · exact .inl (hl.trans _ _ _ hab hbc)
      · exact .inl (hbc ▸ hab)
    · rcases hcb with hbc | ⟨hbc, hn'⟩
      · exact .inl (hab ▸ hbc)
      · exact .inr ⟨hbc.trans hab, h.trans a b c hn hn'⟩

theorem ties_thenBy (hl : Linear lt) {a b : α} :
    Ties (thenBy lt key next) a b ↔ key a = key b ∧ Ties next a b := by
  unfold Ties
  rw [thenBy_eq_false hl, thenBy_eq_false hl]
  constructor
  · rintro ⟨hba | ⟨heq, hn⟩, hab | ⟨heq', hn'⟩⟩
    · exact absurd (hl.trans _ _ _ hba hab) (hl.irrefl _)
    · exact absurd (heq' ▸ hba) (hl.irrefl _)
    · exact absurd (heq ▸ hab) (hl.irrefl _)
    · exact ⟨heq, hn, hn'⟩
  · rintro ⟨heq, hn, hn'⟩
    exact ⟨.inr ⟨heq, hn⟩, .inr ⟨heq.symm, hn'⟩⟩

/-- The last key is compared as an earlier one is, with nothing after it. -/
theorem byKey_eq (hl : Linear lt) : byKey lt key = thenBy lt key fun _ _ => false := by
  funext a b
  unfold byKey thenBy
  split
  · rfl
  · rename_i heq
    rw [not_not] at heq
    exact decide_eq_false (heq ▸ hl.irrefl _)

theorem weak_byKey (hl : Linear lt) : Weak (byKey lt key) := by
  rw [byKey_eq hl]
  exact weak_thenBy hl ⟨fun _ _ _ => rfl, fun _ _ _ _ _ => rfl⟩

theorem ties_byKey (hl : Linear lt) {a b : α} : Ties (byKey lt key) a b ↔ key a = key b := by
  rw [byKey_eq hl, ties_thenBy hl, and_iff_left ⟨rfl, rfl⟩]

end Comparators

/-! Sorts -/

section Sorts
variable {α : Type u} {before : α → α → Bool}

/-- `std::stable_sort` with the comparator, and `std::sort` where only equal members tie. -/
def stableSort (before : α → α → Bool) (l : List α) : List α := l.mergeSort fun a b => !before b a

theorem stableSort_perm (before : α → α → Bool) (l : List α) : (stableSort before l).Perm l :=
  List.mergeSort_perm l _

theorem mem_stableSort {a : α} {l : List α} : a ∈ stableSort before l ↔ a ∈ l :=
  (stableSort_perm before l).mem_iff

theorem pairwise_stableSort (h : Weak before) (l : List α) :
    (stableSort before l).Pairwise fun a b => before b a = false := by
  have htrans : ∀ a b c, (!before b a) = true → (!before c b) = true → (!before c a) = true := by
    intro a b c hab hbc
    rw [Bool.not_eq_true'] at *
    exact h.trans a b c hab hbc
  have htotal : ∀ a b, (!before b a || !before a b) = true := by
    intro a b
    cases hba : before b a with
    | false => simp
    | true => simp [h.asymm b a hba]
  exact (List.pairwise_mergeSort htrans htotal l).imp fun hab => Bool.not_eq_true' _ ▸ hab

/-- Where only equal members tie, the order they came in leaves no trace. -/
theorem stableSort_eq_of_perm (h : Weak before) {l l' : List α} (hperm : l.Perm l')
    (hties : ∀ a ∈ l, ∀ b ∈ l, Ties before a b → a = b) :
    stableSort before l = stableSort before l' := by
  have hsame : (stableSort before l).Perm (stableSort before l') :=
    ((stableSort_perm before l).trans hperm).trans (stableSort_perm before l').symm
  refine List.Perm.eq_of_pairwise (fun a b ha hb hab hba => ?_) (pairwise_stableSort h l)
    (pairwise_stableSort h l') hsame
  exact hties a (mem_stableSort.mp ha) b (hperm.mem_iff.mpr (mem_stableSort.mp hb)) ⟨hba, hab⟩

end Sorts

end CanonicalSort
