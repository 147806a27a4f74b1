import Mathlib

/-!
Links that lead from a member to at most one other, as to the one above it: what a climb of
bounded length visits, and when that is the whole line.
-/

set_option autoImplicit false

namespace Ancestry

universe u

section Links
variable {α : Type u} (next : α → Option α)

/-- From `start` upwards, `n` members at most. -/
def climb : Nat → Option α → List α
  | 0, _ => []
  | _ + 1, none => []
  | n + 1, some a => a :: climb n (next a)

/-- All members from `start` up to one with nothing above it. -/
inductive Line : Option α → List α → Prop where
  | nil : Line none []
  | cons {a : α} {l : List α} (h : Line (next a) l) : Line (some a) (a :: l)

variable {next} {start : Option α} {l : List α} {n : Nat}

/-! Lines -/

theorem Line.unique {l' : List α} (h : Line next start l) (h' : Line next start l') : l = l' := by
  induction h generalizing l' with
  | nil =>
    cases h'
    rfl
  | cons h ih =>
    cases h' with
    | cons h' => rw [ih h']

theorem Line.of_mem {a : α} (h : Line next start l) (hmem : a ∈ l) :
    ∃ rest, Line next (some a) (a :: rest) ∧ rest.length < l.length := by
  induction h with
  | nil => cases hmem
  | @cons b l h ih =>
    rcases List.mem_cons.mp hmem with rfl | hmem
    · exact ⟨l, .cons h, Nat.lt_succ_self _⟩
    · obtain ⟨rest, hrest, hlt⟩ := ih hmem
      exact ⟨rest, hrest, hlt.trans (Nat.lt_succ_self _)⟩

/-- Who stands above a member twice has a line without an end. -/
theorem Line.nodup (h : Line next start l) : l.Nodup := by
  induction h with
  | nil => exact List.nodup_nil
  | @cons a l h ih =>
    refine List.nodup_cons.mpr ⟨fun hmem => ?_, ih⟩
    obtain ⟨rest, hrest, hlt⟩ := h.of_mem hmem
    have hsame : a :: rest = a :: l := hrest.unique (.cons h)
    cases hsame
    exact Nat.lt_irrefl _ hlt

/-! Climbs -/

theorem climb_of_line (h : Line next start l) (n : Nat) : climb next n start = l.take n := by
  induction h generalizing n with
  | nil => cases n <;> rfl
  | cons h ih =>
    cases n with
    | zero => rfl
    | succ n => rw [climb, List.take_succ_cons, ih]

/-- A climb that ends early has come to the end of the line. -/
theorem line_of_climb (h : (climb next n start).length < n) :
    Line next start (climb next n start) := by
  induction n generalizing start with
  | zero => cases h
  | succ n ih =>
    cases start with
    | none => exact .nil
    | some a => exact .cons (ih (Nat.lt_of_succ_lt_succ h))

theorem length_climb_le (n : Nat) (start : Option α) : (climb next n start).length ≤ n := by
  induction n generalizing start with
  | zero => exact Nat.le_refl 0
  | succ n ih =>
    cases start with
    | none => exact Nat.zero_le _
    | some a => exact Nat.succ_le_succ (ih (next a))

theorem length_climb_of_endless (h : ∀ l, ¬ Line next start l) :
    (climb next n start).length = n :=
  (length_climb_le n start).antisymm (not_lt.mp fun hlt => h _ (line_of_climb hlt))

theorem head?_climb (n : Nat) (start : Option α) : (climb next (n + 1) start).head? = start := by
  cases start <;> rfl

theorem isChain_climb (n : Nat) (start : Option α) :
    (climb next n start).IsChain fun a b => next a = some b := by
  induction n generalizing start with
  | zero => exact .nil
  | succ n ih =>
    cases start with
    | none => exact .nil
    | some a =>
      rw [climb, List.isChain_cons]
      refine ⟨fun b hb => ?_, ih (next a)⟩
      cases n with
      | zero => cases hb
      | succ n => rwa [head?_climb] at hb

theorem climb_forall {p : α → Prop} (hstart : ∀ a ∈ start, p a)
    (hnext : ∀ a, p a → ∀ b ∈ next a, p b) : ∀ a ∈ climb next n start, p a := by
  induction n generalizing start with
  | zero => simp [climb]
  | succ n ih =>
    cases start with
    | none => simp [climb]
    | some a =>
      have ha : p a := hstart a rfl
      rw [climb, List.forall_mem_cons]
      exact ⟨ha, ih (hnext a ha)⟩

/-- With fewer members than steps, a climb visits one of them twice unless the line ends. -/
theorem nodup_climb_iff {members : List α}
    (hin : ∀ a ∈ climb next n start, a ∈ members) (hn : members.length < n) :
    (climb next n start).Nodup ↔ Line next start (climb next n start) := by
  refine ⟨fun hnodup => line_of_climb ?_, Line.nodup⟩
  have hle : (climb next n start).length ≤ members.length :=
    (List.subperm_of_subset hnodup hin).length_le
  exact hle.trans_lt hn

end Links

end Ancestry
