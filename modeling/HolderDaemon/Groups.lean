import HolderDaemon.Assoc

/-!
Maps that rows are gathered into: an entry made or changed in place, values collected once
each, and two maps that hold the same entries.
-/

set_option autoImplicit false

namespace Assoc

universe u v w

section Lists
variable {κ : Type u} {β : Type v} [BEq κ] [LawfulBEq κ]

/-- `operator[]` for writing: the entry is made where it is missing. -/
def upsert (k : κ) (f : Option β → β) (l : List (κ × β)) : List (κ × β) := set k (f (l.lookup k)) l

theorem lookup_upsert [DecidableEq κ] (k k' : κ) (f : Option β → β) (l : List (κ × β)) :
    (upsert k f l).lookup k' = if k = k' then some (f (l.lookup k)) else l.lookup k' := by
  by_cases h : k = k'
  · subst h
    rw [if_pos rfl, upsert, lookup_set_self]
  · rw [if_neg h, upsert, lookup_set_ne h]

theorem nodup_upsert (k : κ) (f : Option β → β) {l : List (κ × β)} (h : (l.map Prod.fst).Nodup) :
    ((upsert k f l).map Prod.fst).Nodup :=
  nodup_set _ h

theorem mem_iff_lookup {k : κ} {v : β} {l : List (κ × β)} (h : (l.map Prod.fst).Nodup) :
    (k, v) ∈ l ↔ l.lookup k = some v :=
  ⟨lookup_of_mem h, mem_of_lookup⟩

/-- Maps that find the same are the same up to the order of their entries. -/
theorem perm_of_lookup_eq {l l' : List (κ × β)} (h : (l.map Prod.fst).Nodup)
    (h' : (l'.map Prod.fst).Nodup) (heq : ∀ k, l.lookup k = l'.lookup k) : l.Perm l' := by
  refine (List.perm_ext_iff_of_nodup h.of_map h'.of_map).mpr fun e => ?_
  obtain ⟨k, v⟩ := e
  rw [mem_iff_lookup h, mem_iff_lookup h', heq]

theorem lookup_eq_of_perm {l l' : List (κ × β)} (h : (l.map Prod.fst).Nodup) (hperm : l.Perm l')
    (k : κ) : l.lookup k = l'.lookup k := by
  have h' : (l'.map Prod.fst).Nodup := (hperm.map Prod.fst).nodup_iff.mp h
  refine Option.ext fun v => ?_
  rw [← mem_iff_lookup h, ← mem_iff_lookup h', hperm.mem_iff]

end Lists

section Firsts
variable {α : Type u} [DecidableEq α]

/-- At the end, unless it is there. -/
def addNew (l : List α) (a : α) : List α := if a ∈ l then l else l ++ [a]

/-- Each value once, where it came first. -/
def firsts (l : List α) : List α := l.foldl addNew []

theorem firsts_concat (l : List α) (a : α) : firsts (l ++ [a]) = addNew (firsts l) a := by
  rw [firsts, List.foldl_append]
  rfl

theorem mem_addNew {l : List α} {a b : α} : b ∈ addNew l a ↔ b ∈ l ∨ b = a := by
  unfold addNew
  split
  · rename_i hmem
    exact ⟨.inl, fun h => h.elim id fun heq => heq ▸ hmem⟩
  · simp

theorem mem_firsts {l : List α} {b : α} : b ∈ firsts l ↔ b ∈ l := by
  induction l using List.reverseRecOn with
  | nil => rfl
  | append_singleton l a ih => rw [firsts_concat, mem_addNew, ih, List.mem_append,
      List.mem_singleton]

theorem nodup_firsts (l : List α) : (firsts l).Nodup := by
  induction l using List.reverseRecOn with
  | nil => exact List.nodup_nil
  | append_singleton l a ih =>
    rw [firsts_concat, addNew]
    split
    · exact ih
    · rename_i hnot
      refine List.nodup_append.mpr ⟨ih, List.nodup_singleton a, fun b hb c hc => ?_⟩
      rw [List.mem_singleton.mp hc]
      rintro rfl
      exact hnot hb

end Firsts

end Assoc
