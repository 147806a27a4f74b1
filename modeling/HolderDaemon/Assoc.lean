import Mathlib

/-!
Association lists as maps: writing and erasing a key, and how `List.lookup` sees it.
-/

set_option autoImplicit false

namespace Assoc

universe u v w

section Lists
variable {κ : Type u} {β : Type v} {γ : Type w} [BEq κ]

/-- Write in place, or at the end where the key is new. -/
def set (k : κ) (v : β) : List (κ × β) → List (κ × β)
  | [] => [(k, v)]
  | e :: l => if e.1 == k then (k, v) :: l else e :: set k v l

def erase (k : κ) (l : List (κ × β)) : List (κ × β) := l.filter fun e => e.1 != k

theorem nodup_erase {k : κ} {l : List (κ × β)} (h : (l.map Prod.fst).Nodup) :
    ((erase k l).map Prod.fst).Nodup :=
  h.sublist (List.filter_sublist.map _)

variable [LawfulBEq κ]

theorem lookup_cons_eq (k : κ) (e : κ × β) (l : List (κ × β)) :
    (e :: l).lookup k = if e.1 == k then some e.2 else l.lookup k := by
  obtain ⟨a, b⟩ := e
  rw [List.lookup_cons, BEq.comm]
  cases h : a == k <;> simp

theorem lookup_set_self (k : κ) (v : β) (l : List (κ × β)) :
    (set k v l).lookup k = some v := by
  induction l with
  | nil => simp [set]
  | cons e l ih =>
    rw [set]
    split
    · simp
    · rename_i h
      rw [lookup_cons_eq, if_neg h, ih]

theorem lookup_set_ne {k k' : κ} (h : k ≠ k') (v : β) (l : List (κ × β)) :
    (set k v l).lookup k' = l.lookup k' := by
  have hb : ¬ (k == k') = true := by simpa using h
  induction l with
  | nil => simp [set, lookup_cons_eq, h]
  | cons e l ih =>
    rw [set]
    split
    · rename_i he
      have hk := eq_of_beq he
      rw [lookup_cons_eq, lookup_cons_eq, if_neg hb, hk, if_neg hb]
    · rw [lookup_cons_eq, lookup_cons_eq, ih]

theorem lookup_erase_self (k : κ) (l : List (κ × β)) : (erase k l).lookup k = none := by
  rw [List.lookup_eq_none_iff]
  intro e he
  have hne := (List.mem_filter.mp he).2
  rw [bne_iff_ne] at hne
  simpa using Ne.symm hne

theorem lookup_erase_ne {k k' : κ} (h : k ≠ k') (l : List (κ × β)) :
    (erase k l).lookup k' = l.lookup k' := by
  have hb : ¬ (k == k') = true := by simpa using h
  induction l with
  | nil => rfl
  | cons e l ih =>
    rw [erase, List.filter_cons]
    split
    · rw [lookup_cons_eq, lookup_cons_eq, ← ih, erase]
    · rename_i he
      have hk : e.1 = k := by simpa using he
      rw [lookup_cons_eq, hk, if_neg hb, ← ih, erase]

theorem mem_of_lookup {k : κ} {v : β} {l : List (κ × β)} (h : l.lookup k = some v) :
    (k, v) ∈ l := by
  obtain ⟨before, after, hl, _⟩ := List.lookup_eq_some_iff.mp h
  simp [hl]

theorem isSome_lookup_iff {k : κ} {l : List (κ × β)} :
    (l.lookup k).isSome = true ↔ k ∈ l.map Prod.fst := by
  induction l with
  | nil => simp
  | cons e l ih =>
    rw [lookup_cons_eq, List.map_cons, List.mem_cons]
    by_cases he : e.1 = k
    · simp [he]
    · rw [if_neg (by simpa using he), ih]
      exact ⟨.inr, fun h => h.resolve_left (Ne.symm he)⟩

theorem lookup_of_mem {k : κ} {v : β} {l : List (κ × β)} (h : (l.map Prod.fst).Nodup)
    (hmem : (k, v) ∈ l) : l.lookup k = some v := by
  obtain ⟨w, hw⟩ := Option.isSome_iff_exists.mp
    (isSome_lookup_iff.mpr (List.mem_map.mpr ⟨(k, v), hmem, rfl⟩))
  have heq := List.inj_on_of_nodup_map h hmem (mem_of_lookup hw) rfl
  rw [hw, (Prod.mk.inj heq).2]

theorem keys_set {k : κ} (v : β) {l : List (κ × β)} :
    (set k v l).map Prod.fst =
      if (l.lookup k).isSome then l.map Prod.fst else l.map Prod.fst ++ [k] := by
  induction l with
  | nil => rfl
  | cons e l ih =>
    rw [set, lookup_cons_eq]
    by_cases he : (e.1 == k) = true
    · rw [if_pos he, if_pos he, List.map_cons, List.map_cons, eq_of_beq he]
      rfl
    · rw [if_neg he, if_neg he, List.map_cons, ih]
      split <;> rfl

theorem nodup_set {k : κ} (v : β) {l : List (κ × β)} (h : (l.map Prod.fst).Nodup) :
    ((set k v l).map Prod.fst).Nodup := by
  rw [keys_set]
  split
  · exact h
  · rename_i hnone
    rw [isSome_lookup_iff] at hnone
    refine List.nodup_append.mpr ⟨h, List.nodup_singleton k, fun a ha b hb => ?_⟩
    rw [List.mem_singleton.mp hb]
    rintro rfl
    exact hnone ha

theorem length_erase_lt {k : κ} {l : List (κ × β)} (h : (l.lookup k).isSome = true) :
    (erase k l).length < l.length := by
  obtain ⟨v, hv⟩ := Option.isSome_iff_exists.mp h
  exact List.length_filter_lt_length_iff_exists.mpr ⟨(k, v), mem_of_lookup hv, by simp⟩

theorem lookup_map (f : β → γ) (k : κ) (l : List (κ × β)) :
    (l.map fun e => (e.1, f e.2)).lookup k = (l.lookup k).map f := by
  induction l with
  | nil => rfl
  | cons e l ih =>
    simp only [List.map_cons, lookup_cons_eq, ih]
    split <;> rfl

end Lists

end Assoc
