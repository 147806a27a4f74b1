import Mathlib

/-!
A text that is read in pieces and worked off line by line: each piece is taken apart at a
separator by itself, its lines are trimmed, and a line may end the reading. Where no piece ends
inside the text of a line, the pieces give what the whole text gives.
-/

set_option autoImplicit false

namespace Pieces

universe u v w

section Trim
variable {α : Type u} {blank : α → Bool}

/-- Without the blanks at both ends. -/
def trim (blank : α → Bool) (s : List α) : List α :=
  ((s.dropWhile blank).reverse.dropWhile blank).reverse

theorem trim_blank_append {s : List α} (h : s.all blank = true) (t : List α) :
    trim blank (s ++ t) = trim blank t := by
  rw [trim, trim, List.dropWhile_append_of_pos (List.all_eq_true.mp h)]

theorem trim_append_blank {t : List α} (h : t.all blank = true) (s : List α) :
    trim blank (s ++ t) = trim blank s := by
  have hback : t.reverse.all blank = true := by rwa [List.all_reverse]
  rw [trim, trim, List.dropWhile_append]
  split
  · rename_i hempty
    rw [List.isEmpty_iff.mp hempty, List.dropWhile_eq_nil_iff.mpr (List.all_eq_true.mp h)]
  · rw [List.reverse_append, List.dropWhile_append_of_pos (List.all_eq_true.mp hback)]

theorem trim_of_blank {s : List α} (h : s.all blank = true) : trim blank s = [] := by
  have hs := trim_blank_append h []
  rwa [List.append_nil] at hs

theorem trim_singleton (a : α) : trim blank [a] = if blank a then [] else [a] := by
  cases h : blank a <;> simp [trim, h]

theorem trim_eq_self_iff {s : List α} :
    trim blank s = s ↔ (∀ a ∈ s.head?, blank a = false) ∧ ∀ a ∈ s.getLast?, blank a = false := by
  have hdrop : ∀ t : List α, t.dropWhile blank = t ↔ ∀ a ∈ t.head?, blank a = false := by
    intro t
    cases t with
    | nil => simp
    | cons a t =>
      rw [List.dropWhile_cons]
      cases ha : blank a with
      | false => simp [ha]
      | true =>
        refine iff_of_false (fun h => ?_) (by simp [ha])
        have hlength := congrArg List.length h
        have hle := (List.dropWhile_suffix blank (l := t)).length_le
        simp only [if_true, List.length_cons] at hlength
        omega
  constructor
  · intro h
    have hle := (List.dropWhile_suffix blank (l := (s.dropWhile blank).reverse)).length_le
    have hfront : s.dropWhile blank = s := by
      refine (List.dropWhile_suffix blank).eq_of_length_le ?_
      rw [trim] at h
      conv_lhs => rw [← h]
      simpa using hle
    refine ⟨(hdrop s).mp hfront, ?_⟩
    rw [trim, hfront, ← List.reverse_inj, List.reverse_reverse] at h
    simpa using (hdrop _).mp h
  · rintro ⟨hhead, hlast⟩
    have hback : ∀ a ∈ s.reverse.head?, blank a = false := by simpa using hlast
    rw [trim, (hdrop s).mpr hhead, (hdrop _).mpr hback, List.reverse_reverse]

theorem trim_trim (s : List α) : trim blank (trim blank s) = trim blank s := by
  have hhead : ∀ t : List α, ∀ a ∈ (t.dropWhile blank).head?, blank a = false := by
    intro t a ha
    have hnot := List.head?_dropWhile_not blank t
    rw [ha] at hnot
    simpa using hnot
  rw [trim_eq_self_iff]
  refine ⟨?_, fun a ha => hhead (s.dropWhile blank).reverse a (by simpa [trim] using ha)⟩
  intro a ha
  have hpre : trim blank s <+: s.dropWhile blank := by
    rw [trim, ← List.reverse_suffix, List.reverse_reverse]
    exact List.dropWhile_suffix blank
  refine hhead s a ?_
  obtain ⟨t, ht⟩ := hpre
  rw [← ht, List.head?_append, ha]
  rfl

/-- A text from one that is not blank to another stays whole. -/
theorem length_le_trim {s : List α} (hhead : ∀ a ∈ s.head?, blank a = false)
    (hlast : ∀ a ∈ s.getLast?, blank a = false) (t : List α) :
    s.length ≤ (trim blank (s ++ t)).length := by
  have hs := trim_eq_self_iff.mpr ⟨hhead, hlast⟩
  cases s with
  | nil => exact Nat.zero_le _
  | cons a s =>
    have ha : blank a = false := hhead a rfl
    have hdrop : ((a :: s) ++ t).dropWhile blank = (a :: s) ++ t := by
      rw [List.cons_append, List.dropWhile_cons, ha]
      rfl
    rw [trim, hdrop, List.reverse_append, List.dropWhile_append, List.length_reverse]
    split
    · rw [trim, List.dropWhile_cons, ha] at hs
      have hback := congrArg List.length hs
      rw [List.length_reverse] at hback
      exact Nat.le_of_eq hback.symm
    · simp

end Trim

section Lines
variable {α : Type u} [DecidableEq α] (sep : α) (blank : α → Bool)

/-- The lines, trimmed, without those that are blank. -/
def lines (s : List α) : List (List α) := ((s.splitOn sep).map (trim blank)).filter fun l => l ≠ []

/-- The part up to the last separator, and the line after it, which may go on. -/
def wholeLines (s : List α) : List α := s.rdropWhile fun a => a ≠ sep

def lastLine (s : List α) : List α := s.rtakeWhile fun a => a ≠ sep

def firstLine (s : List α) : List α := s.takeWhile fun a => a ≠ sep

/-- Nothing of the text of a line stands before the cut, or nothing of it stands after. -/
def Harmless (s t : List α) : Prop :=
  (lastLine sep s).all blank = true ∨ (firstLine sep t).all blank = true

instance (s t : List α) : Decidable (Harmless sep blank s t) := instDecidableOr

variable {sep blank}

@[simp] theorem lines_nil : lines sep blank [] = [] := by
  simp [lines, trim]

theorem lines_append_sep (s t : List α) :
    lines sep blank (s ++ sep :: t) = lines sep blank s ++ lines sep blank t := by
  simp only [lines, List.splitOn_eq_splitOnP]
  rw [List.splitOnP_append_cons (p := (· == sep)) s t (beq_self_eq_true sep), List.map_append,
    List.filter_append]

theorem lines_line {s : List α} (h : sep ∉ s) :
    lines sep blank s = if trim blank s = [] then [] else [trim blank s] := by
  rw [lines, List.splitOn_eq_singleton h]
  by_cases hnil : trim blank s = [] <;> simp [hnil]

theorem notMem_lastLine (s : List α) : sep ∉ lastLine sep s := by
  intro h
  simpa using List.mem_rtakeWhile_imp h

theorem notMem_firstLine (s : List α) : sep ∉ firstLine sep s := by
  intro h
  simpa using List.mem_takeWhile_imp h

theorem wholeLines_cases (s : List α) :
    wholeLines sep s = [] ∨ ∃ q, wholeLines sep s = q ++ [sep] := by
  rcases List.eq_nil_or_concat (wholeLines sep s) with hnil | ⟨q, a, hwhole⟩
  · exact .inl hnil
  · have hne : s.rdropWhile (fun a => decide (a ≠ sep)) ≠ [] := by
      intro hnil
      rw [wholeLines, hnil] at hwhole
      simp at hwhole
    have hlast := List.rdropWhile_last_not _ _ hne
    have ha : (s.rdropWhile fun a => decide (a ≠ sep)).getLast hne = a := by
      rw [List.getLast_eq_iff_getLast?_eq_some]
      exact (congrArg List.getLast? hwhole).trans (by simp)
    rw [ha] at hlast
    have hsep : a = sep := by simpa using hlast
    exact .inr ⟨q, by rw [hwhole, hsep, List.concat_eq_append]⟩

/-- A line that goes on does not touch the lines before it. -/
theorem lines_wholeLines_append (s t : List α) :
    lines sep blank (wholeLines sep s ++ t) =
      lines sep blank (wholeLines sep s) ++ lines sep blank t := by
  rcases wholeLines_cases s with hnil | ⟨q, hq⟩
  · rw [hnil, lines_nil, List.nil_append, List.nil_append]
  · rw [hq, List.append_assoc, List.singleton_append, lines_append_sep, lines_append_sep,
      lines_nil, List.append_nil]

variable (sep blank) in
theorem lines_split (s t : List α) :
    lines sep blank (s ++ t) =
      lines sep blank (wholeLines sep s) ++ lines sep blank (lastLine sep s ++ t) := by
  rw [← lines_wholeLines_append, ← List.append_assoc]
  congr 2
  exact List.rdropWhile_append_rtakeWhile.symm

variable (sep blank) in
/-- What stands after the first line does not touch it. -/
theorem lines_firstLine (s t : List α) :
    ∃ rest, lines sep blank (s ++ t) = lines sep blank (s ++ firstLine sep t) ++ rest ∧
      lines sep blank t = lines sep blank (firstLine sep t) ++ rest := by
  have ht : firstLine sep t ++ t.dropWhile (fun a => a ≠ sep) = t :=
    List.takeWhile_append_dropWhile
  cases hdrop : t.dropWhile fun a => a ≠ sep with
  | nil =>
    rw [hdrop, List.append_nil] at ht
    refine ⟨[], ?_, ?_⟩ <;> rw [ht, List.append_nil]
  | cons a q =>
    have ha := List.head?_dropWhile_not (fun a => decide (a ≠ sep)) t
    rw [hdrop] at ha
    have hsep : a = sep := by simpa using ha
    rw [hdrop, hsep] at ht
    refine ⟨lines sep blank q, ?_, ?_⟩
    · conv_lhs => rw [← ht]
      rw [← List.append_assoc, lines_append_sep]
    · conv_lhs => rw [← ht]
      rw [lines_append_sep]

theorem lines_append {s t : List α} (h : Harmless sep blank s t) :
    lines sep blank (s ++ t) = lines sep blank s ++ lines sep blank t := by
  have hs := lines_split sep blank s []
  rw [List.append_nil, List.append_nil] at hs
  obtain ⟨rest, hgo, ht⟩ := lines_firstLine sep blank (lastLine sep s) t
  have hboth : sep ∉ lastLine sep s ++ firstLine sep t := by
    rw [List.mem_append, not_or]
    exact ⟨notMem_lastLine s, notMem_firstLine t⟩
  have hline : lines sep blank (lastLine sep s ++ firstLine sep t) =
      lines sep blank (lastLine sep s) ++ lines sep blank (firstLine sep t) := by
    rw [lines_line hboth, lines_line (notMem_lastLine s), lines_line (notMem_firstLine t)]
    rcases h with hblank | hblank
    · rw [trim_blank_append hblank, trim_of_blank hblank]
      rfl
    · rw [trim_append_blank hblank, trim_of_blank hblank]
      simp
  rw [lines_split sep blank, hgo, hline, hs, ht, List.append_assoc, List.append_assoc]

theorem mem_lines_line {s l : List α} (hs : sep ∉ s) (h : l ∈ lines sep blank s) :
    trim blank s = l := by
  rw [lines_line hs] at h
  split at h
  · cases h
  · exact (List.mem_singleton.mp h).symm

/-- A line is what is left of a part of the text without a separator. -/
theorem lines_infix {s l : List α} (h : l ∈ lines sep blank s) :
    ∃ piece, piece <:+: s ∧ sep ∉ piece ∧ trim blank piece = l := by
  by_cases hsep : sep ∈ s
  · obtain ⟨t, u, rfl, ht⟩ := List.eq_append_cons_of_mem hsep
    rw [lines_append_sep, List.mem_append] at h
    rcases h with hl | hl
    · exact ⟨t, (List.prefix_append t _).isInfix, ht, mem_lines_line ht hl⟩
    · obtain ⟨piece, hpiece, hnot, htrim⟩ := lines_infix hl
      refine ⟨piece, hpiece.trans ?_, hnot, htrim⟩
      exact ((List.suffix_cons sep u).trans (List.suffix_append t _)).isInfix
  · exact ⟨s, List.infix_rfl, hsep, mem_lines_line hsep h⟩
termination_by s.length
decreasing_by
  subst_vars
  simp
  omega

theorem ne_nil_of_mem_lines {s l : List α} (h : l ∈ lines sep blank s) : l ≠ [] := by
  simpa using (List.mem_filter.mp h).2

theorem lines_of_blank {s : List α} (h : s.all blank = true) : lines sep blank s = [] := by
  refine List.eq_nil_iff_forall_not_mem.mpr fun l hl => ?_
  obtain ⟨piece, hpiece, -, htrim⟩ := lines_infix hl
  refine ne_nil_of_mem_lines hl ?_
  rw [← htrim]
  refine trim_of_blank (List.all_eq_true.mpr fun a ha => ?_)
  exact List.all_eq_true.mp h a (hpiece.subset ha)

theorem all_lastLine {s : List α} (h : s.all blank = true) :
    (lastLine sep s).all blank = true :=
  List.all_eq_true.mpr fun a ha =>
    List.all_eq_true.mp h a ((List.rtakeWhile_suffix _ s).subset ha)

theorem all_firstLine {s : List α} (h : s.all blank = true) :
    (firstLine sep s).all blank = true :=
  List.all_eq_true.mpr fun a ha =>
    List.all_eq_true.mp h a ((List.takeWhile_prefix _).subset ha)

/-- Blanks at both ends of the text make no difference to its lines. -/
theorem lines_trim (s : List α) : lines sep blank (trim blank s) = lines sep blank s := by
  have hfront : (s.takeWhile blank).all blank = true := List.all_takeWhile
  have hback : ∀ t : List α, lines sep blank (t.dropWhile blank).reverse =
      lines sep blank t.reverse := by
    intro t
    have hall : (t.takeWhile blank).reverse.all blank = true := by
      rw [List.all_reverse]
      exact List.all_takeWhile
    conv_rhs => rw [← List.takeWhile_append_dropWhile (p := blank) (l := t), List.reverse_append]
    rw [lines_append (.inr (all_firstLine hall)), lines_of_blank hall, List.append_nil]
  rw [trim, hback, List.reverse_reverse]
  conv_rhs => rw [← List.takeWhile_append_dropWhile (p := blank) (l := s)]
  rw [lines_append (.inl (all_lastLine hfront)), lines_of_blank hfront, List.nil_append]

/-- A text that is written line by line. -/
theorem lines_flatMap {ls : List (List α)} (h : ∀ l ∈ ls, sep ∉ l ∧ trim blank l = l) :
    lines sep blank (ls.flatMap fun l => l ++ [sep]) = ls.filter fun l => l ≠ [] := by
  induction ls with
  | nil => exact lines_nil
  | cons l ls ih =>
    rw [List.forall_mem_cons] at h
    rw [List.flatMap_cons, List.append_assoc, List.singleton_append, lines_append_sep, ih h.2,
      lines_line h.1.1, h.1.2, List.filter_cons]
    by_cases hnil : l = []
    · simp [hnil]
    · simp [hnil]

omit [DecidableEq α] in
/-- Pieces that end at a separator can be told apart. -/
theorem prefix_append_sep {s t u v : List α} (hs : sep ∉ s) (ht : sep ∉ t)
    (h : s ++ sep :: u <+: t ++ sep :: v) : s = t ∧ u <+: v := by
  induction s generalizing t with
  | nil =>
    cases t with
    | nil => exact ⟨rfl, (List.cons_prefix_cons.mp h).2⟩
    | cons b t =>
      obtain ⟨hb, -⟩ := List.cons_prefix_cons.mp h
      exact absurd (hb ▸ List.mem_cons_self) ht
  | cons a s ih =>
    rw [List.mem_cons, not_or] at hs
    cases t with
    | nil =>
      obtain ⟨ha, -⟩ := List.cons_prefix_cons.mp h
      exact absurd ha.symm hs.1
    | cons b t =>
      rw [List.mem_cons, not_or] at ht
      obtain ⟨rfl, hrest⟩ := List.cons_prefix_cons.mp h
      obtain ⟨rfl, huv⟩ := ih hs.2 ht.2 hrest
      exact ⟨rfl, huv⟩

omit [DecidableEq α] in
theorem prefix_of_flatMap {ls ms : List (List α)} (hl : ∀ l ∈ ls, sep ∉ l) (hm : ∀ m ∈ ms, sep ∉ m)
    (h : (ls.flatMap fun l => l ++ [sep]) <+: ms.flatMap fun m => m ++ [sep]) : ls <+: ms := by
  induction ls generalizing ms with
  | nil => exact List.nil_prefix
  | cons l ls ih =>
    rw [List.forall_mem_cons] at hl
    cases ms with
    | nil => simp at h
    | cons m ms =>
      rw [List.forall_mem_cons] at hm
      simp only [List.flatMap_cons, List.append_assoc, List.singleton_append] at h
      obtain ⟨rfl, hrest⟩ := prefix_append_sep hl.1 hm.1 h
      exact List.cons_prefix_cons.mpr ⟨rfl, ih hl.2 hm.2 hrest⟩

end Lines

/-! A loop over lines that may stop -/

section Loop
variable {α : Type u} {σ : Type v} {ε : Type w} (line : σ → List α → σ × Bool)

/-- Line by line, until one of them ends it. -/
def loop : σ → List (List α) → σ × Bool
  | s, [] => (s, false)
  | s, l :: ls =>
    match line s l with
    | (t, true) => (t, true)
    | (t, false) => loop t ls

theorem loop_append (s : σ) (ls ms : List (List α)) :
    loop line s (ls ++ ms) =
      if (loop line s ls).2 then loop line s ls else loop line (loop line s ls).1 ms := by
  induction ls generalizing s with
  | nil => rfl
  | cons l ls ih =>
    rw [List.cons_append, loop, loop]
    split
    · rfl
    · exact ih _

/-- One read of the body: a piece, bytes that come with a request to read again, the end of the
stream, or an error. -/
inductive Read (α : Type u) (ε : Type w) where
  | piece (s : List α)
  | again (s : List α)
  | endOfStream
  | failed (e : ε)

/-- How the reading of a body ends: by a line, without one, or by an error. -/
inductive End (ε : Type w) where
  | line
  | body
  | error (e : ε)
  deriving DecidableEq

variable [DecidableEq α] (sep : α) (blank : α → Bool)

/-- The reads of a body, up to its last one; `kept` is what the reads since the last piece have
left in the buffer. -/
def readBody : σ → List α → List (Read α ε) → σ × End ε
  | s, _, [] => (s, .body)
  | s, kept, .again more :: rs => readBody s (kept ++ more) rs
  | s, _, .endOfStream :: _ => (s, .body)
  | s, _, .failed e :: _ => (s, .error e)
  | s, kept, .piece more :: rs =>
    match loop line s (lines sep blank (kept ++ more)) with
    | (t, true) => (t, .line)
    | (t, false) => readBody t [] rs

/-- The lines of all pieces up to the end of the stream. -/
def linesRead : List α → List (Read α ε) → List (List α)
  | _, [] => []
  | kept, .again more :: rs => linesRead (kept ++ more) rs
  | _, .endOfStream :: _ => []
  | _, .failed _ :: _ => []
  | kept, .piece more :: rs => lines sep blank (kept ++ more) ++ linesRead [] rs

def lastRead : List (Read α ε) → End ε
  | [] => .body
  | .endOfStream :: _ => .body
  | .failed e :: _ => .error e
  | .again _ :: rs => lastRead rs
  | .piece _ :: rs => lastRead rs

/-- A body that arrives in pieces, without an error. -/
def pieces (chunks : List (List α)) : List (Read α ε) := chunks.map .piece

/-- No piece ends inside the text of a line, as long as the lines go on. -/
def Aligned : σ → List (List α) → Prop
  | _, [] => True
  | s, c :: cs =>
    (loop line s (lines sep blank (wholeLines sep c))).2 = true ∨
      Harmless sep blank c cs.flatten ∧
        Aligned (loop line s (lines sep blank c)).1 cs

variable {line sep blank}

variable (line sep blank) in
/-- A body is read as the loop over its lines. -/
theorem readBody_eq (s : σ) (kept : List α) (rs : List (Read α ε)) :
    readBody line sep blank s kept rs =
      ((loop line s (linesRead sep blank kept rs)).1,
        if (loop line s (linesRead sep blank kept rs)).2 then .line else lastRead rs) := by
  induction rs generalizing s kept with
  | nil => rfl
  | cons r rs ih =>
    cases r with
    | piece more =>
      rw [readBody, linesRead, loop_append]
      cases hloop : loop line s (lines sep blank (kept ++ more)) with
      | mk t stopped =>
        cases stopped with
        | true => rfl
        | false => exact ih t []
    | again more => exact ih s (kept ++ more)
    | endOfStream => rfl
    | failed e => rfl

theorem linesRead_pieces (chunks : List (List α)) :
    linesRead sep blank [] (pieces chunks : List (Read α ε)) =
      chunks.flatMap (lines sep blank) := by
  induction chunks with
  | nil => rfl
  | cons c cs ih => rw [pieces, List.map_cons, linesRead, List.flatMap_cons, ← ih, pieces,
      List.nil_append]

omit [DecidableEq α] in
theorem lastRead_pieces (chunks : List (List α)) :
    lastRead (pieces chunks : List (Read α ε)) = .body := by
  induction chunks with
  | nil => rfl
  | cons c cs ih => exact ih

theorem readBody_pieces (s : σ) (chunks : List (List α)) :
    readBody line sep blank s [] (pieces chunks : List (Read α ε)) =
      ((loop line s (chunks.flatMap (lines sep blank))).1,
        if (loop line s (chunks.flatMap (lines sep blank))).2 then .line else .body) := by
  rw [readBody_eq, linesRead_pieces, lastRead_pieces]

theorem loop_aligned {s : σ} {chunks : List (List α)} (h : Aligned line sep blank s chunks) :
    loop line s (chunks.flatMap (lines sep blank)) = loop line s (lines sep blank chunks.flatten) := by
  induction chunks generalizing s with
  | nil => simp
  | cons c cs ih =>
    rw [List.flatMap_cons, List.flatten_cons]
    rcases h with hstop | ⟨hcut, hrest⟩
    · have hc := lines_split sep blank c []
      rw [List.append_nil, List.append_nil] at hc
      rw [hc, lines_split sep blank, List.append_assoc, loop_append, if_pos hstop, loop_append, if_pos hstop]
    · rw [lines_append hcut, loop_append, loop_append, ih hrest]

/-- Pieces that do not end inside the text of a line do what the whole body does in one piece. -/
theorem readBody_aligned {s : σ} {chunks : List (List α)} (h : Aligned line sep blank s chunks) :
    readBody line sep blank s [] (pieces chunks : List (Read α ε)) =
      readBody line sep blank s [] (pieces [chunks.flatten]) := by
  rw [readBody_pieces, readBody_pieces, loop_aligned h]
  simp

end Loop

end Pieces
