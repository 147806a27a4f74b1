import Mathlib

/-!
Requests that are handled in stages, each of which throws or changes the state. Nothing takes back
what the stages before the one that throws have done.
-/

set_option autoImplicit false

namespace Stages

universe u v w x

section Stages
variable {S : Type u} {E : Type v} {X : Type w} (act : E → S → Except X S)

/-- The stages that are read from a request; a read that fails throws in its turn. -/
def orRefuse (refuse : X → E) : Except X (List E) → List E
  | .ok stages => stages
  | .error what => [refuse what]

/-- What was thrown, if anything, and the state that is left. -/
def run : List E → S → Except X Unit × S
  | [], s => (.ok (), s)
  | e :: es, s =>
    match act e s with
    | .error what => (.error what, s)
    | .ok t => run es t

/-- The stages go through, from the first state to the second. -/
def Through : List E → S → S → Prop
  | [], s, t => s = t
  | e :: es, s, t => ∃ u, act e s = .ok u ∧ Through es u t

/-- The stages that went through before the one that throws, and the state it finds. -/
def ThrowsAfter (es done : List E) (s t : S) : Prop :=
  Through act done s t ∧ ∃ e rest what, es = done ++ e :: rest ∧ act e t = .error what

/-- An error leaves the state as it was, as far as it is looked at. -/
def AllOrNothing {V : Type x} (view : S → V) (es : List E) (s : S) : Prop :=
  ∀ what, (run act es s).1 = .error what → view (run act es s).2 = view s

variable {act}

theorem run_of_throw {e : E} {s : S} {what : X} (h : act e s = .error what) (es : List E) :
    run act (e :: es) s = (.error what, s) := by
  rw [run, h]

theorem run_of_go {e : E} {s t : S} (h : act e s = .ok t) (es : List E) :
    run act (e :: es) s = run act es t := by
  rw [run, h]

theorem run_ok_iff {es : List E} {s t : S} : run act es s = (.ok (), t) ↔ Through act es s t := by
  induction es generalizing s with
  | nil => rw [run, Through, Prod.mk.injEq, and_iff_right rfl]
  | cons e es ih =>
    rw [Through]
    cases h : act e s with
    | error what =>
      rw [run_of_throw h]
      exact iff_of_false (by nofun) (by nofun)
    | ok u =>
      rw [run_of_go h, ih]
      exact ⟨fun hrest => ⟨u, rfl, hrest⟩, fun ⟨v, hv, hrest⟩ => by cases hv; exact hrest⟩

/-- An error is what some stage threw at the state that the stages before it left. -/
theorem run_error_iff {es : List E} {s t : S} :
    (∃ what, run act es s = (.error what, t)) ↔ ∃ done, ThrowsAfter act es done s t := by
  induction es generalizing s with
  | nil =>
    refine iff_of_false (fun ⟨what, h⟩ => by cases h) ?_
    rintro ⟨done, -, e, rest, what, h, -⟩
    exact List.append_ne_nil_of_right_ne_nil done (List.cons_ne_nil e rest) h.symm
  | cons e es ih =>
    constructor
    · rintro ⟨what, h⟩
      cases hact : act e s with
      | error thrown =>
        rw [run_of_throw hact] at h
        cases h
        exact ⟨[], rfl, e, es, what, rfl, hact⟩
      | ok u =>
        rw [run_of_go hact] at h
        obtain ⟨done, hthrough, last, rest, thrown, hes, hthrown⟩ := ih.mp ⟨what, h⟩
        exact ⟨e :: done, ⟨u, hact, hthrough⟩, last, rest, thrown, by rw [hes]; rfl, hthrown⟩
    · rintro ⟨done, hthrough, last, rest, what, hes, hthrown⟩
      cases done with
      | nil =>
        obtain ⟨rfl, rfl⟩ := List.cons.inj hes
        cases hthrough
        exact ⟨what, run_of_throw hthrown es⟩
      | cons first done =>
        obtain ⟨rfl, rfl⟩ := List.cons.inj hes
        obtain ⟨u, hact, hthrough⟩ := hthrough
        obtain ⟨thrown, hrun⟩ := ih.mpr ⟨done, hthrough, last, rest, what, rfl, hthrown⟩
        exact ⟨thrown, by rw [run_of_go hact, hrun]⟩

/-- All or nothing: whatever comes before a stage that throws changes nothing that is looked at. -/
theorem allOrNothing_iff {V : Type x} {view : S → V} {es : List E} {s : S} :
    AllOrNothing act view es s ↔ ∀ done t, ThrowsAfter act es done s t → view t = view s := by
  constructor
  · intro h done t hthrows
    obtain ⟨what, hrun⟩ := run_error_iff.mpr ⟨done, hthrows⟩
    have hview := h what (congrArg Prod.fst hrun)
    rwa [hrun] at hview
  · intro h what herror
    obtain ⟨done, hthrows⟩ := run_error_iff.mp
      ⟨what, (Prod.ext herror rfl : run act es s = (.error what, (run act es s).2))⟩
    exact h done _ hthrows

end Stages

end Stages
