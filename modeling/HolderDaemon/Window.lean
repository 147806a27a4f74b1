import Mathlib

/-!
Bounded logs. A log keeps the longest suffix of what was appended to it that has at most
`capacity` entries of total weight at most `limit`, by dropping entries from the front.
-/

set_option autoImplicit false

namespace Window

universe u

section Longest
variable {α : Type u} (weight : α → Nat) (capacity limit : Nat)

def total (l : List α) : Nat := (l.map weight).sum

def Fits (l : List α) : Prop := l.length ≤ capacity ∧ total weight l ≤ limit

instance (l : List α) : Decidable (Fits weight capacity limit l) := by
  unfold Fits
  infer_instance

/-- Drop from the front until the rest fits. -/
def trim : List α → List α
  | [] => []
  | a :: l => if Fits weight capacity limit (a :: l) then a :: l else trim l

structure Longest (kept log : List α) : Prop where
  suffix : kept <:+ log
  fits : Fits weight capacity limit kept
  longest : ∀ t, t <:+ log → Fits weight capacity limit t → t <:+ kept

@[simp] theorem total_nil : total weight ([] : List α) = 0 := rfl

@[simp] theorem total_cons (a : α) (l : List α) :
    total weight (a :: l) = weight a + total weight l := by
  simp [total]

@[simp] theorem total_append (l m : List α) :
    total weight (l ++ m) = total weight l + total weight m := by
  simp [total]

theorem fits_nil : Fits weight capacity limit ([] : List α) := by simp [Fits]

variable {weight capacity limit}

theorem longest_nil : Longest weight capacity limit ([] : List α) [] where
  suffix := List.suffix_rfl
  fits := fits_nil weight capacity limit
  longest := fun _ ht _ => ht

theorem trim_longest (l : List α) :
    Longest weight capacity limit (trim weight capacity limit l) l := by
  induction l with
  | nil => exact longest_nil
  | cons a l ih =>
    by_cases hf : Fits weight capacity limit (a :: l)
    · rw [trim, if_pos hf]
      exact ⟨List.suffix_rfl, hf, fun _ ht _ => ht⟩
    · rw [trim, if_neg hf]
      refine ⟨ih.suffix.trans (List.suffix_cons a l), ih.fits, ?_⟩
      intro t ht hft
      rcases List.suffix_cons_iff.mp ht with rfl | ht
      · exact absurd hft hf
      · exact ih.longest t ht hft

theorem trim_suffix (weight : α → Nat) (capacity limit : Nat) (l : List α) :
    trim weight capacity limit l <:+ l := (trim_longest l).suffix

/-- Appending one entry and trimming what was kept is trimming the whole log. -/
theorem Longest.concat {kept log : List α} (h : Longest weight capacity limit kept log) (a : α) :
    Longest weight capacity limit (trim weight capacity limit (kept ++ [a])) (log ++ [a]) := by
  have ht : Longest weight capacity limit _ (kept ++ [a]) := trim_longest (kept ++ [a])
  refine ⟨ht.suffix.trans ?_, ht.fits, ?_⟩
  · obtain ⟨p, hp⟩ := h.suffix
    exact ⟨p, by rw [← List.append_assoc, hp]⟩
  · intro t hs hf
    apply ht.longest t ?_ hf
    rcases List.suffix_concat_iff.mp hs with rfl | ⟨s, rfl, hsl⟩
    · exact List.nil_suffix
    · have hfs : Fits weight capacity limit s := by
        simp only [Fits, List.length_append, total_append] at *
        omega
      obtain ⟨p, hp⟩ := h.longest s hsl hfs
      exact ⟨p, by rw [← List.append_assoc, hp]⟩

end Longest

end Window
