import Mathlib

/-!
A loop that may stop with an error: where every pass succeeds, keeps an invariant, achieves what
it is for and undoes no other pass, the loop succeeds and has achieved all of it.
-/

set_option autoImplicit false

namespace Loops

universe u v w

section Passes
variable {σ : Type u} {α : Type v} {ε : Type w} {f : σ → α → Except ε σ} {I : σ → Prop}
  {Q : α → σ → Prop}

/-- One pass over `a` from any state of the invariant. -/
def Achieves (f : σ → α → Except ε σ) (I : σ → Prop) (Q : α → σ → Prop) (a : α) : Prop :=
  ∀ s, I s → ∃ t, f s a = .ok t ∧ I t ∧ Q a t ∧ ∀ b, Q b s → Q b t

theorem foldlM_achieves {l : List α} (h : ∀ a ∈ l, Achieves f I Q a) {s : σ} (hs : I s) :
    ∃ t, l.foldlM f s = .ok t ∧ I t ∧ (∀ a ∈ l, Q a t) ∧ ∀ b, Q b s → Q b t := by
  induction l generalizing s with
  | nil => exact ⟨s, rfl, hs, by simp, fun _ hb => hb⟩
  | cons a l ih =>
    obtain ⟨m, hm, hI, hQ, hkeep⟩ := h a List.mem_cons_self s hs
    obtain ⟨t, ht, hIt, hall, hlater⟩ := ih (fun b hb => h b (List.mem_cons_of_mem a hb)) hI
    refine ⟨t, ?_, hIt, ?_, fun b hb => hlater b (hkeep b hb)⟩
    · rw [List.foldlM_cons, hm]
      exact ht
    · intro b hb
      rcases List.mem_cons.mp hb with rfl | hb
      · exact hlater b hQ
      · exact hall b hb

/-- The same of one loop inside another. -/
theorem foldlM_foldlM_achieves {β : Type*} {g : β → σ → α → Except ε σ} (l : List β)
    (rows : β → List α) (h : ∀ b ∈ l, ∀ a ∈ rows b, Achieves (g b) I Q a) {s : σ} (hs : I s) :
    ∃ t, l.foldlM (fun s b => (rows b).foldlM (g b) s) s = .ok t ∧ I t ∧
      ∀ b ∈ l, ∀ a ∈ rows b, Q a t := by
  have hrow : ∀ b ∈ l, Achieves (fun s b => (rows b).foldlM (g b) s) I
      (fun b t => ∀ a ∈ rows b, Q a t) b := by
    intro b hb s hs
    obtain ⟨t, ht, hI, hQ, hkeep⟩ := foldlM_achieves (h b hb) hs
    exact ⟨t, ht, hI, hQ, fun c hc a ha => hkeep a (hc a ha)⟩
  obtain ⟨t, ht, hI, hQ, -⟩ := foldlM_achieves hrow hs
  exact ⟨t, ht, hI, hQ⟩

/-- What every pass that succeeds keeps, a loop that succeeds keeps. -/
theorem foldlM_invariant (keep : ∀ s a t, I s → f s a = .ok t → I t) {l : List α} {s t : σ}
    (hs : I s) (h : l.foldlM f s = .ok t) : I t := by
  induction l generalizing s with
  | nil =>
    cases h
    exact hs
  | cons a l ih =>
    rw [List.foldlM_cons] at h
    cases hm : f s a with
    | error e =>
      rw [hm] at h
      cases h
    | ok m =>
      rw [hm] at h
      exact ih (keep s a m hs hm) h

end Passes

end Loops
