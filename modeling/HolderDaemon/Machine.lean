import Mathlib

/-!
Machines with labelled steps. A step answers `none` when it is not enabled, so a run
is a list of labels every one of which was enabled where it was taken.
-/

set_option autoImplicit false

namespace Machine

universe u v

section Runs
variable {S : Type u} {L : Type v} (step : S → L → Option S)

def run : S → List L → Option S
  | s, [] => some s
  | s, l :: ls => (step s l).bind fun t => run t ls

@[simp] theorem run_nil (s : S) : run step s [] = some s := rfl

theorem run_cons (s : S) (l : L) (ls : List L) :
    run step s (l :: ls) = (step s l).bind fun t => run step t ls := rfl

theorem run_cons_some {s t : S} {l : L} {ls : List L} (h : run step s (l :: ls) = some t) :
    ∃ m, step s l = some m ∧ run step m ls = some t := by
  rw [run_cons] at h
  exact Option.bind_eq_some_iff.mp h

/-- A run evaluated, and what a test finds at its end. -/
theorem run_of_any (s : S) (ls : List L) (p : S → Bool) (h : (run step s ls).any p = true) :
    ∃ t, run step s ls = some t ∧ p t = true := by
  obtain ⟨t, ht, hp⟩ := (Option.any_eq_true p _).mp h
  exact ⟨t, ht, hp⟩

/-- What every enabled step keeps, every run keeps. -/
theorem run_invariant {I : S → Prop}
    (keep : ∀ s l t, I s → step s l = some t → I t)
    {s t : S} {ls : List L} (h0 : I s) (h : run step s ls = some t) : I t := by
  induction ls generalizing s with
  | nil =>
    cases h
    exact h0
  | cons l ls ih =>
    obtain ⟨m, hm, hr⟩ := run_cons_some step h
    exact ih (keep s l m h0 hm) hr

/-- Every step of the run meets a condition on the state it is taken in. -/
def Along (ok : S → L → Prop) : S → List L → Prop
  | _, [] => True
  | s, l :: ls => ok s l ∧ ∀ t, step s l = some t → Along ok t ls

instance decidableAlong (ok : S → L → Prop) [∀ s l, Decidable (ok s l)] :
    ∀ s ls, Decidable (Along step ok s ls)
  | _, [] => isTrue trivial
  | s, l :: ls =>
    match h : step s l with
    | none => decidable_of_iff (ok s l) ⟨fun hl => ⟨hl, by simp [h]⟩, And.left⟩
    | some t =>
      have := decidableAlong ok t ls
      decidable_of_iff (ok s l ∧ Along step ok t ls) (by simp [Along, h])

theorem run_invariant_along {I : S → Prop} {ok : S → L → Prop}
    (keep : ∀ s l t, I s → ok s l → step s l = some t → I t)
    {s t : S} {ls : List L} (h0 : I s) (ha : Along step ok s ls)
    (h : run step s ls = some t) : I t := by
  induction ls generalizing s with
  | nil =>
    cases h
    exact h0
  | cons l ls ih =>
    obtain ⟨m, hm, hr⟩ := run_cons_some step h
    exact ih (keep s l m h0 ha.1 hm) (ha.2 m hm) hr

/-- An invariant that gives the condition, and that labels of one kind keep. -/
theorem along_of_invariant {I : S → Prop} {ok : S → L → Prop} {good : L → Prop}
    (give : ∀ s l, I s → good l → ok s l)
    (keep : ∀ s l t, I s → good l → step s l = some t → I t)
    {s : S} {ls : List L} (h0 : I s) (hls : ∀ l ∈ ls, good l) : Along step ok s ls := by
  induction ls generalizing s with
  | nil => trivial
  | cons l ls ih =>
    have hl := hls l List.mem_cons_self
    refine ⟨give s l h0 hl, fun t ht => ?_⟩
    exact ih (keep s l t h0 hl ht) fun m hm => hls m (List.mem_cons_of_mem l hm)

end Runs

end Machine
