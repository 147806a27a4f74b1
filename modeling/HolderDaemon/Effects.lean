import Mathlib

/-!
Sequences of effects without a rollback. An effect answers `none` where it throws; `fault` is the
place of one that throws whatever the state is. What the effects before it did stays.
-/

set_option autoImplicit false

namespace Effects

universe u v

section Effects
variable {S : Type u} {E : Type v} (act : S → E → Option S)

/-- Whether all effects went through, and the state they leave. -/
def run : Option Nat → List E → S → Bool × S
  | _, [], s => (true, s)
  | fault, e :: es, s =>
    if fault = some 0 then (false, s)
    else
      match act s e with
      | none => (false, s)
      | some t => run (fault.map Nat.pred) es t

@[simp] theorem run_nil (fault : Option Nat) (s : S) : run act fault [] s = (true, s) := rfl

@[simp] theorem run_fault (e : E) (es : List E) (s : S) :
    run act (some 0) (e :: es) s = (false, s) := rfl

variable {act}

theorem run_throws {fault : Option Nat} {e : E} {es : List E} {s : S} (h : act s e = none) :
    run act fault (e :: es) s = (false, s) := by
  rw [run]
  split
  · rfl
  · rw [h]

theorem run_goes {fault : Option Nat} {e : E} {es : List E} {s t : S} (hfault : fault ≠ some 0)
    (h : act s e = some t) : run act fault (e :: es) s = run act (fault.map Nat.pred) es t := by
  rw [run, if_neg hfault, h]

/-- The fault is not at one of the first `n` effects. -/
def Spares (fault : Option Nat) (n : Nat) : Prop := ∀ k, fault = some k → n ≤ k

theorem Spares.ne_zero {fault : Option Nat} {n : Nat} (h : Spares fault (n + 1)) :
    fault ≠ some 0 := by
  intro hzero
  exact absurd (h 0 hzero) (Nat.not_succ_le_zero n)

theorem Spares.pred {fault : Option Nat} {n : Nat} (h : Spares fault (n + 1)) :
    Spares (fault.map Nat.pred) n := by
  intro k hk
  obtain ⟨m, hm, rfl⟩ := Option.map_eq_some_iff.mp hk
  exact Nat.le_pred_of_lt (h m hm)

theorem exists_of_not_spares {fault : Option Nat} {n : Nat} (h : ¬ Spares fault n) :
    ∃ k, fault = some k ∧ k < n := by
  cases fault with
  | none => exact absurd (fun k hk => (by cases hk)) h
  | some k => exact ⟨k, rfl, Nat.lt_of_not_le fun hle => h fun m hm => (by cases hm; exact hle)⟩

theorem pred_ne_zero {fault : Option Nat} (h0 : fault ≠ some 0) (h1 : fault ≠ some 1) :
    fault.map Nat.pred ≠ some 0 := by
  intro hpred
  obtain ⟨k, rfl, hk⟩ := Option.map_eq_some_iff.mp hpred
  match k, hk with
  | 0, _ => exact h0 rfl
  | 1, _ => exact h1 rfl

instance (fault : Option Nat) (n : Nat) : Decidable (Spares fault n) :=
  match fault with
  | none => isTrue fun _ h => by cases h
  | some k => decidable_of_iff (n ≤ k) ⟨fun hle m hm => by cases hm; exact hle, fun h => h k rfl⟩

/-- What comes after effects that go through. -/
theorem run_append {fault : Option Nat} {es : List E} (fs : List E) {s t : S}
    (hfault : Spares fault es.length) (hgo : es.foldlM act s = some t) :
    run act fault (es ++ fs) s = run act (fault.map fun k => k - es.length) fs t := by
  induction es generalizing fault s with
  | nil =>
    cases hgo
    rw [List.nil_append]
    cases fault <;> rfl
  | cons e es ih =>
    rw [List.foldlM_cons] at hgo
    obtain ⟨u, hu, hrest⟩ := Option.bind_eq_some_iff.mp hgo
    rw [List.cons_append, run_goes hfault.ne_zero hu, ih hfault.pred hrest, Option.map_map]
    congr 2
    funext k
    rw [Function.comp_apply, List.length_cons, Nat.pred_eq_sub_one, Nat.sub_sub, Nat.add_comm]

theorem run_completes {fault : Option Nat} {es : List E} {s t : S}
    (hfault : Spares fault es.length) (hgo : es.foldlM act s = some t) :
    run act fault es s = (true, t) := by
  rw [← List.append_nil es, run_append [] hfault hgo, run_nil]

/-- The effects before the fault stay. -/
theorem run_cut {k : Nat} {es : List E} {s t : S} (hk : k < es.length)
    (hgo : (es.take k).foldlM act s = some t) : run act (some k) es s = (false, t) := by
  have hlength : (es.take k).length = k := List.length_take_of_le (Nat.le_of_lt hk)
  have hspares : Spares (some k) (es.take k).length := fun m hm => by
    cases hm
    exact Nat.le_of_eq hlength
  rw [← List.take_append_drop k es, run_append _ hspares hgo, hlength, Option.map_some,
    Nat.sub_self, List.drop_eq_getElem_cons hk, run_fault]

theorem foldlM_still {es : List E} {s : S} (hstill : ∀ e ∈ es, act s e = some s) :
    es.foldlM act s = some s := by
  induction es with
  | nil => rfl
  | cons e es ih =>
    rw [List.forall_mem_cons] at hstill
    rw [List.foldlM_cons, hstill.1]
    exact ih hstill.2

/-- The fault comes before anything has changed. -/
theorem run_unmoved {k : Nat} {es : List E} {s : S} (hk : k < es.length)
    (hstill : ∀ e ∈ es.take k, act s e = some s) : run act (some k) es s = (false, s) :=
  run_cut hk (foldlM_still hstill)

/-- Effects of which one changes the state last: the fault is before it, or what follows it makes
no difference to the state. -/
theorem run_pivot {fault : Option Nat} {es fs : List E} {e : E} {s t : S}
    (hfault : Spares fault es.length) (hgo : es.foldlM act s = some t)
    (hstill : ∀ u, ∀ f ∈ fs, act u f = some u) :
    (run act fault (es ++ e :: fs) s = (false, t) ∧
        (act t e = none ∨ ¬ Spares fault (es ++ e :: fs).length)) ∨
      ∃ u, act t e = some u ∧
        run act fault (es ++ e :: fs) s = (decide (Spares fault (es ++ e :: fs).length), u) := by
  cases hact : act t e with
  | none => exact .inl ⟨by rw [run_append _ hfault hgo, run_throws hact], .inl rfl⟩
  | some u =>
    have hthen : ∀ n, (es ++ e :: fs.take n).foldlM act s = some u := by
      intro n
      rw [List.foldlM_append, hgo, Option.bind_eq_bind, Option.bind_some, List.foldlM_cons, hact]
      exact foldlM_still fun f hf => hstill u f (List.mem_of_mem_take hf)
    by_cases hall : Spares fault (es ++ e :: fs).length
    · refine .inr ⟨u, rfl, ?_⟩
      rw [decide_eq_true hall]
      refine run_completes hall ?_
      rw [← hthen fs.length, List.take_length]
    · obtain ⟨k, rfl, hk⟩ := exists_of_not_spares hall
      rcases Nat.eq_or_lt_of_le (hfault k rfl) with rfl | hlt
      · left
        rw [run_append _ hfault hgo, Option.map_some, Nat.sub_self, run_fault]
        exact ⟨rfl, .inr hall⟩
      · refine .inr ⟨u, rfl, ?_⟩
        rw [decide_eq_false hall]
        refine run_cut hk ?_
        rw [← hthen (k - es.length - 1), List.take_append, List.take_of_length_le (Nat.le_of_lt hlt)]
        congr 2
        obtain ⟨n, hn⟩ := Nat.exists_eq_add_of_lt hlt
        rw [hn, show es.length + n + 1 - es.length = n + 1 by omega, List.take_succ_cons,
          Nat.add_sub_cancel]

/-- Effects that throw by a fault only. -/
theorem run_total {f : S → E → S} (hf : ∀ s e, act s e = some (f s e)) {fault : Option Nat}
    {es : List E} {s : S} :
    (run act fault es s).2 = (es.take (fault.getD es.length)).foldl f s := by
  induction es generalizing fault s with
  | nil => rw [run_nil, List.take_nil, List.foldl_nil]
  | cons e es ih =>
    by_cases hzero : fault = some 0
    · rw [hzero, run_fault, Option.getD_some, List.take_zero, List.foldl_nil]
    · rw [run_goes hzero (hf s e), ih]
      cases fault with
      | none => rfl
      | some k =>
        cases k with
        | zero => exact absurd rfl hzero
        | succ k => rfl

end Effects

end Effects
