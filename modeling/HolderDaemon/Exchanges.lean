import Mathlib

/-!
Exchanges with a service that may be lost on the way there or on the way back, or be refused, and
a loop that repeats them.
-/

set_option autoImplicit false

namespace Exchanges

universe u v w x

/-- A refusal has a status of its own and does nothing; `404` is left to the service. -/
inductive Fault (ε : Type u) where
  | none
  | lostBefore (what : ε)
  | lostAfter (what : ε)
  | refused (status : {n : Nat // 400 ≤ n ∧ n ≠ 404})

def overloaded : {n : Nat // 400 ≤ n ∧ n ≠ 404} := ⟨503, by decide⟩

/-- The service, and what befalls the next exchanges. -/
structure World (σ : Type u) (ε : Type v) where
  service : σ
  faults : List (Fault ε)

section Exchange
variable {σ : Type u} {ε : Type v} {α : Type w} {ρ : Type x} (refusal : Nat → ρ)
  (handle : σ → α → ρ × σ)

def exchange (w : World σ ε) (r : α) : Except ε ρ × World σ ε :=
  match w.faults.headD .none with
  | .none => (.ok (handle w.service r).1, ⟨(handle w.service r).2, w.faults.tail⟩)
  | .lostBefore what => (.error what, ⟨w.service, w.faults.tail⟩)
  | .lostAfter what => (.error what, ⟨(handle w.service r).2, w.faults.tail⟩)
  | .refused status => (.ok (refusal status.1), ⟨w.service, w.faults.tail⟩)

/-- An exchange fails or is refused only where something befalls it. -/
theorem exchange_cases (w : World σ ε) (r : α) :
    ∃ result t, exchange refusal handle w r = (result, ⟨t, w.faults.tail⟩) ∧
      ((∃ what, result = .error what ∧ w.faults ≠ [] ∧
          (t = w.service ∨ t = (handle w.service r).2)) ∨
        (∃ status, 400 ≤ status ∧ status ≠ 404 ∧ result = .ok (refusal status) ∧
          w.faults ≠ [] ∧ t = w.service) ∨
        (result = .ok (handle w.service r).1 ∧ t = (handle w.service r).2)) := by
  obtain ⟨service, faults⟩ := w
  cases faults with
  | nil => exact ⟨_, _, rfl, .inr (.inr ⟨rfl, rfl⟩)⟩
  | cons fault faults =>
    have hsome : fault :: faults ≠ [] := List.cons_ne_nil _ _
    cases fault with
    | none => exact ⟨_, _, rfl, .inr (.inr ⟨rfl, rfl⟩)⟩
    | lostBefore what => exact ⟨_, _, rfl, .inl ⟨what, rfl, hsome, .inl rfl⟩⟩
    | lostAfter what => exact ⟨_, _, rfl, .inl ⟨what, rfl, hsome, .inr rfl⟩⟩
    | refused status =>
      exact ⟨_, _, rfl, .inr (.inl ⟨status.1, status.2.1, status.2.2, rfl, hsome, rfl⟩)⟩

/-! Repeated exchanges -/

/-- Up to `n + 1` attempts: a response that `again` holds of is asked for again, and the last
attempt is taken as it is. -/
def repeated (again : ρ → Bool) : Nat → World σ ε → α → Except ε ρ × World σ ε
  | 0, w, r => exchange refusal handle w r
  | n + 1, w, r =>
    match exchange refusal handle w r with
    | (.error _, w) => repeated again n w r
    | (.ok response, w) =>
      if again response then repeated again n w r else (.ok response, w)

/-- No refusal that is final, and never more than `limit` faults in a row, of which `left` are
left. -/
def mild (final : Nat → Bool) (limit : Nat) : Nat → List (Fault ε) → Bool
  | _, [] => true
  | _, .none :: faults => mild final limit limit faults
  | left, .refused status :: faults =>
    !final status.1 && 0 < left && mild final limit (left - 1) faults
  | left, .lostBefore _ :: faults | left, .lostAfter _ :: faults =>
    0 < left && mild final limit (left - 1) faults

variable {handle} {again : ρ → Bool} {I : σ → Prop} {r : α}

/-- What repeated exchanges come to, where the service may be asked again without harm: it was
asked in a state of `I` and answered, or it is left in one and the faults were not mild. -/
theorem repeated_cases (hkeep : ∀ s, I s → I (handle s r).2)
    (hanswers : ∀ s, I s → again (handle s r).1 = false) (limit left : Nat) {w : World σ ε}
    (hw : I w.service) :
    ∃ result t, repeated refusal handle again left w r = (result, t) ∧ I t.service ∧
      ((∃ s, I s ∧ result = .ok (handle s r).1 ∧ t.service = (handle s r).2 ∧
          (mild (fun status => !again (refusal status)) limit left w.faults = true →
            mild (fun status => !again (refusal status)) limit limit t.faults = true)) ∨
        (mild (fun status => !again (refusal status)) limit left w.faults = false ∧
          ((∃ what, result = .error what) ∨
            ∃ status, 400 ≤ status ∧ status ≠ 404 ∧ result = .ok (refusal status)))) := by
  induction left generalizing w with
  | zero =>
    obtain ⟨service, faults⟩ := w
    match faults with
    | [] => exact ⟨_, _, rfl, hkeep _ hw, .inl ⟨_, hw, rfl, rfl, fun _ => rfl⟩⟩
    | .none :: faults => exact ⟨_, _, rfl, hkeep _ hw, .inl ⟨_, hw, rfl, rfl, id⟩⟩
    | .lostBefore what :: faults => exact ⟨_, _, rfl, hw, .inr ⟨rfl, .inl ⟨what, rfl⟩⟩⟩
    | .lostAfter what :: faults =>
      exact ⟨_, _, rfl, hkeep _ hw, .inr ⟨rfl, .inl ⟨what, rfl⟩⟩⟩
    | .refused status :: faults =>
      exact ⟨_, _, rfl, hw, .inr ⟨by simp [mild],
        .inr ⟨status.1, status.2.1, status.2.2, rfl⟩⟩⟩
  | succ left ih =>
    obtain ⟨service, faults⟩ := w
    match faults with
    | [] =>
      refine ⟨.ok (handle service r).1, ⟨(handle service r).2, []⟩, ?_, hkeep _ hw,
        .inl ⟨service, hw, rfl, rfl, fun _ => rfl⟩⟩
      simp only [repeated, exchange, List.headD_nil, hanswers _ hw, Bool.false_eq_true, if_false]
      rfl
    | .none :: faults =>
      refine ⟨.ok (handle service r).1, ⟨(handle service r).2, faults⟩, ?_, hkeep _ hw,
        .inl ⟨service, hw, rfl, rfl, id⟩⟩
      simp only [repeated, exchange, List.headD_cons, hanswers _ hw, Bool.false_eq_true, if_false]
      rfl
    | .lostBefore what :: faults => simpa [repeated, exchange, mild] using @ih ⟨_, faults⟩ hw
    | .lostAfter what :: faults =>
      simpa [repeated, exchange, mild] using @ih ⟨_, faults⟩ (hkeep _ hw)
    | .refused status :: faults =>
      by_cases hagain : again (refusal status.1) = true
      · simpa [repeated, exchange, mild, hagain] using @ih ⟨_, faults⟩ hw
      · refine ⟨.ok (refusal status.1), ⟨service, faults⟩, ?_, hw, .inr ⟨?_, .inr ?_⟩⟩
        · simp [repeated, exchange, hagain]
        · simp [mild, hagain]
        · exact ⟨status.1, status.2.1, status.2.2, rfl⟩

end Exchange

end Exchanges
