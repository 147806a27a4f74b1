import Mathlib

/-!
Places that tokens move between. A place is a queue; a token goes from the front of one place to
the back of another, and only to places of a higher rank.
-/

set_option autoImplicit false

namespace HolderDaemon

universe u

/-- Tokens are numbered as they are issued. `entered` and `left` are what has come to a place and
what has gone from it, in this order. -/
structure Depot (P : Type u) where
  issued : Nat := 0
  contents : P → List Nat := fun _ => []
  entered : P → List Nat := fun _ => []
  left : P → List Nat := fun _ => []

namespace Depot

variable {P : Type u}

section Operations
variable [DecidableEq P]

def put (d : Depot P) (p : P) (t : Nat) : Depot P :=
  { d with
    contents := Function.update d.contents p (d.contents p ++ [t])
    entered := Function.update d.entered p (d.entered p ++ [t]) }

def issue (d : Depot P) (p : P) : Depot P :=
  { d.put p d.issued with issued := d.issued + 1 }

def move (d : Depot P) (p q : P) : Depot P :=
  match d.contents p with
  | [] => d
  | t :: rest =>
    { d with
      contents := Function.update d.contents p rest
      left := Function.update d.left p (d.left p ++ [t]) : Depot P }.put q t

/-- One token after the other. -/
def drain (d : Depot P) (p q : P) : Depot P :=
  (fun e : Depot P => e.move p q)^[(d.contents p).length] d

variable {d : Depot P} {p q x : P} {t a : Nat} {rest : List Nat}

@[simp] theorem issue_issued : (d.issue p).issued = d.issued + 1 := rfl

theorem issue_contents :
    (d.issue p).contents x = if x = p then d.contents p ++ [d.issued] else d.contents x := by
  simp only [issue, put, Function.update_apply]

theorem issue_entered :
    (d.issue p).entered x = if x = p then d.entered p ++ [d.issued] else d.entered x := by
  simp only [issue, put, Function.update_apply]

@[simp] theorem issue_left : (d.issue p).left x = d.left x := rfl

theorem mem_issue_contents :
    a ∈ (d.issue p).contents x ↔ a ∈ d.contents x ∨ (x = p ∧ a = d.issued) := by
  rw [issue_contents]
  split
  · rename_i hx
    simp [hx]
  · rename_i hx
    simp [hx]

theorem mem_issue_entered :
    a ∈ (d.issue p).entered x ↔ a ∈ d.entered x ∨ (x = p ∧ a = d.issued) := by
  rw [issue_entered]
  split
  · rename_i hx
    simp [hx]
  · rename_i hx
    simp [hx]

@[simp] theorem move_issued : (d.move p q).issued = d.issued := by
  unfold move
  split <;> rfl

theorem move_contents (h : d.contents p = t :: rest) (hpq : p ≠ q) :
    (d.move p q).contents x =
      if x = q then d.contents q ++ [t] else if x = p then rest else d.contents x := by
  simp only [move, h, put, Function.update_apply, hpq.symm, if_false]

theorem move_entered (h : d.contents p = t :: rest) :
    (d.move p q).entered x = if x = q then d.entered q ++ [t] else d.entered x := by
  simp only [move, h, put, Function.update_apply]

theorem move_left (h : d.contents p = t :: rest) :
    (d.move p q).left x = if x = p then d.left p ++ [t] else d.left x := by
  simp only [move, h, put, Function.update_apply]

theorem move_contents_of_ne (hp : x ≠ p) (hq : x ≠ q) :
    (d.move p q).contents x = d.contents x := by
  unfold move
  split
  · rfl
  · simp only [put, Function.update_of_ne hq, Function.update_of_ne hp]

theorem move_entered_of_ne (hq : x ≠ q) : (d.move p q).entered x = d.entered x := by
  unfold move
  split
  · rfl
  · simp only [put, Function.update_of_ne hq]

theorem length_move (h : d.contents p = t :: rest) (hpq : p ≠ q) :
    ((d.move p q).contents x).length + (if x = p then 1 else 0) =
      (d.contents x).length + if x = q then 1 else 0 := by
  rw [move_contents h hpq]
  by_cases hq : x = q
  · simp [hq, hpq.symm]
  · by_cases hp : x = p
    · simp [hp, hpq, h]
    · simp [hp, hq]

theorem mem_move_entered (h : d.contents p = t :: rest) :
    a ∈ (d.move p q).entered x ↔ a ∈ d.entered x ∨ (x = q ∧ a = t) := by
  rw [move_entered h]
  split
  · rename_i hx
    simp [hx]
  · rename_i hx
    simp [hx]

theorem drain_contents (hpq : p ≠ q) : (d.drain p q).contents p = [] := by
  unfold drain
  generalize hn : (d.contents p).length = n
  induction n generalizing d with
  | zero => exact List.eq_nil_of_length_eq_zero hn
  | succ n ih =>
    obtain ⟨t, rest, h⟩ := List.exists_cons_of_length_eq_add_one hn
    rw [Function.iterate_succ_apply]
    refine ih ?_
    rw [move_contents h hpq, if_neg hpq, if_pos rfl]
    rw [h] at hn
    simpa using hn

theorem drain_of_ne (hp : x ≠ p) (hq : x ≠ q) : (d.drain p q).contents x = d.contents x := by
  unfold drain
  induction (d.contents p).length generalizing d with
  | zero => rfl
  | succ n ih =>
    rw [Function.iterate_succ_apply, ih, move_contents_of_ne hp hq]

theorem drain_entered_of_ne (hq : x ≠ q) : (d.drain p q).entered x = d.entered x := by
  unfold drain
  induction (d.contents p).length generalizing d with
  | zero => rfl
  | succ n ih =>
    rw [Function.iterate_succ_apply, ih, move_entered_of_ne hq]

end Operations

/-! What holds of every depot -/

section Sound
variable (rank : P → Nat) (admits : P → Nat → Prop)

structure Sound (d : Depot P) : Prop where
  fifo : ∀ p, d.entered p = d.left p ++ d.contents p
  placed : ∀ t, t < d.issued → ∃ p, t ∈ d.contents p
  known : ∀ p, ∀ t ∈ d.entered p, t < d.issued
  once : ∀ p, (d.entered p).Nodup
  forward : ∀ p q t, t ∈ d.entered p → t ∈ d.contents q → p = q ∨ rank p < rank q
  level : ∀ p q t, t ∈ d.entered p → t ∈ d.entered q → rank p = rank q → p = q
  admitted : ∀ p, ∀ t ∈ d.entered p, admits p t

inductive Step [DecidableEq P] : Depot P → Depot P → Prop where
  | issue {d : Depot P} (p : P) (hadmits : admits p d.issued) : Step d (d.issue p)
  | move {d : Depot P} (p q : P) (hrank : rank p < rank q)
      (hadmits : ∀ t ∈ (d.contents p).head?, admits p t → admits q t) : Step d (d.move p q)

variable {rank admits} {d e : Depot P}

theorem sound_empty : Sound rank admits ({} : Depot P) where
  fifo _ := rfl
  placed _ h := absurd h (Nat.not_lt_zero _)
  known _ _ h := by cases h
  once _ := List.nodup_nil
  forward _ _ _ h := by cases h
  level _ _ _ h := by cases h
  admitted _ _ h := by cases h

namespace Sound

theorem mem_entered (h : Sound rank admits d) {p : P} {t : Nat} (ht : t ∈ d.contents p) :
    t ∈ d.entered p := by
  rw [h.fifo p]
  exact List.mem_append_right _ ht

theorem contents_nodup (h : Sound rank admits d) (p : P) : (d.contents p).Nodup := by
  have hall := h.once p
  rw [h.fifo p] at hall
  exact (List.nodup_append.mp hall).2.1

/-- A token is in one place at most. -/
theorem alone (h : Sound rank admits d) {p q : P} {t : Nat} (hp : t ∈ d.contents p)
    (hq : t ∈ d.contents q) : p = q := by
  rcases h.forward p q t (h.mem_entered hp) hq with heq | hlt
  · exact heq
  · rcases h.forward q p t (h.mem_entered hq) hp with heq | hgt
    · exact heq.symm
    · omega

theorem existsUnique (h : Sound rank admits d) {t : Nat} (ht : t < d.issued) :
    ∃! p, t ∈ d.contents p := by
  obtain ⟨p, hp⟩ := h.placed t ht
  exact ⟨p, hp, fun q hq => h.alone hq hp⟩

variable [DecidableEq P]

theorem issue (h : Sound rank admits d) {p : P} (hadmits : admits p d.issued) :
    Sound rank admits (d.issue p) where
  fifo x := by
    rw [issue_entered, issue_contents, issue_left]
    split
    · rename_i hx
      rw [hx, h.fifo p, List.append_assoc]
    · exact h.fifo x
  placed t ht := by
    rcases Nat.lt_succ_iff_lt_or_eq.mp ht with hlt | rfl
    · obtain ⟨x, hx⟩ := h.placed t hlt
      exact ⟨x, mem_issue_contents.mpr (.inl hx)⟩
    · exact ⟨p, mem_issue_contents.mpr (.inr ⟨rfl, rfl⟩)⟩
  known x t ht := by
    rw [issue_issued]
    rcases mem_issue_entered.mp ht with hold | ⟨_, rfl⟩
    · exact Nat.lt_succ_of_lt (h.known x t hold)
    · exact Nat.lt_succ_self _
  once x := by
    rw [issue_entered]
    split
    · refine List.nodup_append.mpr ⟨h.once p, List.nodup_singleton _, fun a ha b hb => ?_⟩
      rw [List.mem_singleton.mp hb]
      exact Nat.ne_of_lt (h.known p a ha)
    · exact h.once x
  forward x y t hx hy := by
    rcases mem_issue_contents.mp hy with hold | ⟨rfl, rfl⟩
    · have hlt := h.known y t (h.mem_entered hold)
      rcases mem_issue_entered.mp hx with hentered | ⟨_, rfl⟩
      · exact h.forward x y t hentered hold
      · exact absurd hlt (Nat.lt_irrefl _)
    · rcases mem_issue_entered.mp hx with hentered | ⟨rfl, _⟩
      · exact absurd (h.known x _ hentered) (Nat.lt_irrefl _)
      · exact .inl rfl
  level x y t hx hy hrank := by
    rcases mem_issue_entered.mp hx with hx | ⟨rfl, rfl⟩
    · rcases mem_issue_entered.mp hy with hy | ⟨_, rfl⟩
      · exact h.level x y t hx hy hrank
      · exact absurd (h.known x _ hx) (Nat.lt_irrefl _)
    · rcases mem_issue_entered.mp hy with hy | ⟨rfl, _⟩
      · exact absurd (h.known y _ hy) (Nat.lt_irrefl _)
      · rfl
  admitted x t ht := by
    rcases mem_issue_entered.mp ht with hold | ⟨rfl, rfl⟩
    · exact h.admitted x t hold
    · exact hadmits

/-- What is anywhere after a move: the token that moved, or one that stayed. -/
theorem mem_move (h : Sound rank admits d) {p q : P} {t : Nat} {rest : List Nat}
    (hfront : d.contents p = t :: rest) (hpq : p ≠ q) (x : P) (a : Nat) :
    a ∈ (d.move p q).contents x ↔ (x = q ∧ a = t) ∨ (a ∈ d.contents x ∧ a ≠ t) := by
  have htp : t ∈ d.contents p := by simp [hfront]
  have hrest : t ∉ rest := by
    have hnodup := h.contents_nodup p
    rw [hfront] at hnodup
    exact (List.nodup_cons.mp hnodup).1
  have hout : ∀ y, y ≠ p → t ∉ d.contents y := fun y hy ht => hy (h.alone ht htp)
  rw [move_contents hfront hpq]
  by_cases hq : x = q
  · subst hq
    have hin := hout x hpq.symm
    rw [if_pos rfl, List.mem_append, List.mem_singleton]
    constructor
    · rintro (ha | rfl)
      · exact .inr ⟨ha, fun heq => hin (heq ▸ ha)⟩
      · exact .inl ⟨rfl, rfl⟩
    · rintro (⟨_, rfl⟩ | ⟨ha, _⟩)
      · exact .inr rfl
      · exact .inl ha
  · rw [if_neg hq]
    by_cases hp : x = p
    · subst hp
      rw [if_pos rfl, hfront]
      constructor
      · exact fun ha => .inr ⟨List.mem_cons_of_mem _ ha, fun heq => hrest (heq ▸ ha)⟩
      · rintro (⟨hx, _⟩ | ⟨ha, hne⟩)
        · exact absurd hx hq
        · exact (List.mem_cons.mp ha).resolve_left hne
    · rw [if_neg hp]
      constructor
      · exact fun ha => .inr ⟨ha, fun heq => hout x hp (heq ▸ ha)⟩
      · rintro (⟨hx, _⟩ | ⟨ha, _⟩)
        · exact absurd hx hq
        · exact ha

theorem move (h : Sound rank admits d) {p q : P} (hrank : rank p < rank q)
    (hadmits : ∀ t ∈ (d.contents p).head?, admits p t → admits q t) :
    Sound rank admits (d.move p q) := by
  have hpq : p ≠ q := fun heq => by simp [heq] at hrank
  cases hfront : d.contents p with
  | nil =>
    have hsame : d.move p q = d := by simp only [Depot.move, hfront]
    rw [hsame]
    exact h
  | cons t rest =>
    have htp : t ∈ d.contents p := by simp [hfront]
    have hentered := h.mem_entered htp
    -- the token has not been at `q`, nor at any other place of its rank
    have hfresh : ∀ x, t ∈ d.entered x → rank x < rank q := fun x hx => by
      rcases h.forward x p t hx htp with rfl | hlt
      · exact hrank
      · omega
    exact {
      fifo := fun x => by
        rw [move_entered hfront, move_contents hfront hpq, move_left hfront]
        by_cases hq : x = q
        · rw [if_pos hq, if_pos hq, hq, if_neg hpq.symm, h.fifo q, List.append_assoc]
        · rw [if_neg hq, if_neg hq]
          by_cases hp : x = p
          · rw [if_pos hp, if_pos hp, hp, h.fifo p, hfront, List.append_assoc,
              List.singleton_append]
          · rw [if_neg hp, if_neg hp]
            exact h.fifo x
      placed := fun a ha => by
        rw [move_issued] at ha
        by_cases hat : a = t
        · exact ⟨q, (h.mem_move hfront hpq q a).mpr (.inl ⟨rfl, hat⟩)⟩
        · obtain ⟨x, hx⟩ := h.placed a ha
          exact ⟨x, (h.mem_move hfront hpq x a).mpr (.inr ⟨hx, hat⟩)⟩
      known := fun x a ha => by
        rw [move_issued]
        rcases (mem_move_entered hfront).mp ha with hold | ⟨_, rfl⟩
        · exact h.known x a hold
        · exact h.known p a hentered
      once := fun x => by
        rw [move_entered hfront]
        split
        · refine List.nodup_append.mpr ⟨h.once q, List.nodup_singleton _, fun a ha b hb => ?_⟩
          rintro rfl
          rw [List.mem_singleton.mp hb] at ha
          exact absurd (hfresh q ha) (Nat.lt_irrefl _)
        · exact h.once x
      forward := fun x y a hx hy => by
        rcases (h.mem_move hfront hpq y a).mp hy with ⟨rfl, rfl⟩ | ⟨hy, hne⟩
        · rcases (mem_move_entered hfront).mp hx with hold | ⟨rfl, _⟩
          · exact .inr (hfresh x hold)
          · exact .inl rfl
        · rcases (mem_move_entered hfront).mp hx with hold | ⟨_, rfl⟩
          · exact h.forward x y a hold hy
          · exact absurd rfl hne
      level := fun x y a hx hy heq => by
        rcases (mem_move_entered hfront).mp hx with hold | ⟨rfl, rfl⟩
        · rcases (mem_move_entered hfront).mp hy with hother | ⟨rfl, rfl⟩
          · exact h.level x y a hold hother heq
          · exact absurd (hfresh x hold) (by omega)
        · rcases (mem_move_entered hfront).mp hy with hother | ⟨rfl, _⟩
          · exact absurd (hfresh y hother) (by omega)
          · rfl
      admitted := fun x a ha => by
        rcases (mem_move_entered hfront).mp ha with hold | ⟨rfl, rfl⟩
        · exact h.admitted x a hold
        · exact hadmits a (by simp [hfront]) (h.admitted p a hentered) }

theorem step (h : Sound rank admits d) (hstep : Step rank admits d e) : Sound rank admits e := by
  cases hstep with
  | issue p hadmits => exact h.issue hadmits
  | move p q hrank hadmits => exact h.move hrank hadmits

theorem drain (h : Sound rank admits d) {p q : P} (hrank : rank p < rank q)
    (hadmits : ∀ t, admits p t → admits q t) : Sound rank admits (d.drain p q) := by
  unfold Depot.drain
  induction (d.contents p).length generalizing d with
  | zero => exact h
  | succ n ih =>
    rw [Function.iterate_succ_apply]
    exact ih (h.move hrank fun t _ => hadmits t)

end Sound

end Sound

end Depot

end HolderDaemon
