import Mathlib

/-!
Texts that are taken apart at the occurrences of a delimiter. A delimiter that begins with a letter
which it has nowhere else cannot overlap itself, so what is joined with it comes apart again where
no part holds it.
-/

set_option autoImplicit false

namespace Delimiters

universe u

section Cut
variable {α : Type u} [DecidableEq α] (delimiter : List α)

/-- What stands before the first occurrence, and what after it. -/
def cut : List α → Option (List α × List α)
  | [] => none
  | a :: s =>
    if delimiter <+: a :: s then some ([], (a :: s).drop delimiter.length)
    else (cut s).map fun p => (a :: p.1, p.2)

/-- The pieces of a text, by at most `n` cuts. -/
def pieces : Nat → List α → List (List α)
  | 0, s => [s]
  | n + 1, s =>
    match cut delimiter s with
    | none => [s]
    | some (before, after) => before :: pieces n after

/-- The text between the occurrences, from left to right. -/
def split (s : List α) : List (List α) := pieces delimiter s.length s

variable {delimiter}

theorem cut_at_start {s : List α} (hne : delimiter ≠ []) (h : delimiter <+: s) :
    cut delimiter s = some ([], s.drop delimiter.length) := by
  cases s with
  | nil => exact absurd (List.prefix_nil.mp h) hne
  | cons a s => rw [cut, if_pos h]

theorem cut_skips {a : α} {s : List α} (h : ¬ delimiter <+: a :: s) :
    cut delimiter (a :: s) = (cut delimiter s).map fun p => (a :: p.1, p.2) := by
  rw [cut, if_neg h]

theorem cut_eq_some {s before after : List α} (h : cut delimiter s = some (before, after)) :
    s = before ++ delimiter ++ after := by
  induction s generalizing before with
  | nil => cases h
  | cons a s ih =>
    by_cases hbegins : delimiter <+: a :: s
    · rw [cut, if_pos hbegins] at h
      obtain ⟨rest, hrest⟩ := hbegins
      cases h
      rw [← hrest, List.drop_left, List.nil_append]
    · rw [cut_skips hbegins] at h
      obtain ⟨⟨first, rest⟩, hcut, hpair⟩ := Option.map_eq_some_iff.mp h
      cases hpair
      rw [ih hcut, List.cons_append, List.cons_append]

theorem cut_eq_none_iff (hne : delimiter ≠ []) (s : List α) :
    cut delimiter s = none ↔ ¬ delimiter <:+: s := by
  induction s with
  | nil => exact iff_of_true rfl fun h => hne (List.infix_nil.mp h)
  | cons a s ih =>
    rw [List.infix_cons_iff, not_or]
    by_cases hbegins : delimiter <+: a :: s
    · rw [cut, if_pos hbegins]
      exact iff_of_false (by nofun) fun h => h.1 hbegins
    · rw [cut_skips hbegins, Option.map_eq_none_iff, ih, and_iff_right hbegins]

/-- The first occurrence stays the first one, whatever follows. -/
theorem cut_append {s before after : List α} (h : cut delimiter s = some (before, after))
    (rest : List α) : cut delimiter (s ++ rest) = some (before, after ++ rest) := by
  induction s generalizing before with
  | nil => cases h
  | cons a s ih =>
    by_cases hbegins : delimiter <+: a :: s
    · have hlonger : delimiter <+: a :: (s ++ rest) :=
        hbegins.trans (List.prefix_append (a :: s) rest)
      rw [cut, if_pos hbegins] at h
      cases h
      rw [List.cons_append, cut, if_pos hlonger, ← List.cons_append,
        List.drop_append_of_le_length hbegins.length_le]
    · rw [cut_skips hbegins] at h
      obtain ⟨⟨first, last⟩, hcut, hpair⟩ := Option.map_eq_some_iff.mp h
      cases hpair
      have hlength : delimiter.length ≤ (a :: s).length := by
        have hlength := congrArg List.length (cut_eq_some hcut)
        simp only [List.length_append, List.length_cons] at hlength ⊢
        omega
      -- one that began here would end before `rest`, as the first one does
      have hlonger : ¬ delimiter <+: a :: (s ++ rest) := fun hbegin =>
        hbegins (List.prefix_of_prefix_length_le hbegin (List.prefix_append (a :: s) rest) hlength)
      rw [List.cons_append, cut_skips hlonger, ih hcut, Option.map_some]

/-- Behind a part that does not hold it, the delimiter is found where it was put. -/
theorem cut_append_delimiter {c : α} {t part : List α} (hc : c ∉ t) (hpart : ¬ c :: t <:+: part)
    (rest : List α) : cut (c :: t) (part ++ (c :: t) ++ rest) = some (part, rest) := by
  induction part with
  | nil =>
    rw [List.nil_append, cut_at_start (List.cons_ne_nil c t) (List.prefix_append _ _),
      List.drop_left]
  | cons a part ih =>
    have hinner : ¬ c :: t <:+: part := fun h => hpart (h.trans (List.suffix_cons a part).isInfix)
    have hbegin : ¬ c :: t <+: a :: (part ++ (c :: t) ++ rest) := by
      intro h
      obtain ⟨rfl, htail⟩ := List.cons_prefix_cons.mp h
      have hwhole : part <+: part ++ (c :: t) ++ rest := ⟨(c :: t) ++ rest, by simp⟩
      have hreach : part ++ [c] <+: part ++ (c :: t) ++ rest := ⟨t ++ rest, by simp⟩
      rcases Nat.lt_or_ge part.length t.length with hlt | hge
      · -- this one would reach over the first letter of the next
        have hover : part ++ [c] <+: t :=
          List.prefix_of_prefix_length_le hreach htail (by simpa using hlt)
        exact hc (hover.subset (List.mem_append_right part List.mem_cons_self))
      · have hfit : t <+: part := List.prefix_of_prefix_length_le htail hwhole hge
        exact hpart (List.cons_prefix_cons.mpr ⟨rfl, hfit⟩).isInfix
    rw [List.cons_append, List.cons_append, cut_skips hbegin, ih hinner, Option.map_some]

theorem pieces_of_cut {s before after : List α} (h : cut delimiter s = some (before, after))
    (n : Nat) : pieces delimiter (n + 1) s = before :: pieces delimiter n after := by
  rw [pieces, h]

/-- As many cuts as there are letters take the whole text apart. -/
theorem pieces_eq_split (hne : delimiter ≠ []) {n : Nat} {s : List α} (h : s.length ≤ n) :
    pieces delimiter n s = split delimiter s := by
  rw [split]
  generalize hm : s.length = m at h
  replace hm : s.length ≤ m := hm.le
  induction n generalizing m s with
  | zero =>
    obtain rfl : m = 0 := by omega
    rfl
  | succ n ih =>
    cases hcut : cut delimiter s with
    | none =>
      rw [pieces, hcut]
      cases m with
      | zero => rw [pieces]
      | succ m => rw [pieces, hcut]
    | some pair =>
      obtain ⟨before, after⟩ := pair
      have hpos := List.length_pos_iff.mpr hne
      have hlength := congrArg List.length (cut_eq_some hcut)
      simp only [List.length_append] at hlength
      cases m with
      | zero => omega
      | succ m => rw [pieces_of_cut hcut, pieces_of_cut hcut, ih m (by omega) (by omega)]

theorem split_of_cut (hne : delimiter ≠ []) {s before after : List α}
    (h : cut delimiter s = some (before, after)) :
    split delimiter s = before :: split delimiter after := by
  have hlength : after.length ≤ s.length := by
    have hlength := congrArg List.length (cut_eq_some h)
    simp only [List.length_append] at hlength
    omega
  rw [← pieces_eq_split hne (Nat.le_succ s.length), pieces_of_cut h, pieces_eq_split hne hlength]

end Cut

end Delimiters
