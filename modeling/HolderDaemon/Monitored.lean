import HolderDaemon.Linearization

/-!
Programs that emit events and may throw, in an environment whose answers may depend on everything
that was emitted before, and triples that say that a monitor accepts what they emit.
-/

set_option autoImplicit false

namespace Monitored

universe u v w

/-- The events so far are given and returned with those that are added. -/
def Prog (E : Type u) (α : Type v) := List E → Option α × List E

namespace Prog

section Combinators
variable {E : Type u} {α : Type v} {β : Type w}

def bind (m : Prog E α) (f : α → Prog E β) : Prog E β := fun log =>
  match m log with
  | (some a, log) => f a log
  | (none, log) => (none, log)

/-- What the environment shows without being asked. -/
def observe (f : List E → α) : Prog E α := fun log => (some (f log), log)

/-- The environment answers, the answer is emitted, and may be an exception. -/
def ask (answer : List E → β) (event : β → E) (result : β → Option α) : Prog E α := fun log =>
  (result (answer log), log ++ [event (answer log)])

/-- Whether the program went through; its exception is caught. -/
def attempt (m : Prog E α) : Prog E Bool := fun log =>
  match m log with
  | (some _, log) => (some true, log)
  | (none, log) => (some false, log)

/-- An event that follows whether or not the program throws. -/
def always (m : Prog E α) (e : E) : Prog E α := fun log => ((m log).1, (m log).2 ++ [e])

end Combinators

instance {E : Type u} : Monad (Prog E) where
  pure a := fun log => (some a, log)
  bind := bind

def each {E : Type u} {β : Type v} (f : β → Prog E Unit) : List β → Prog E Unit
  | [] => pure ()
  | b :: rest => do
    f b
    each f rest

end Prog

section Meets
variable {E : Type u} {S : Type v} {α β : Type} (step : S → E → Option S) (start : S)

/-- Where the monitor stands in `P`, it accepts what the program emits and stands then in `Q`, or
in `R` after an exception. -/
def Meets (P : S → Prop) (m : Prog E α) (Q : α → S → Prop) (R : S → Prop) : Prop :=
  ∀ log s, Machine.run step start log = some s → P s →
    ∃ t, Machine.run step start (m log).2 = some t ∧
      match (m log).1 with
      | some a => Q a t
      | none => R t

variable {step start} {P P' : S → Prop} {R R' : S → Prop}

theorem Meets.pure {Q : α → S → Prop} (a : α) (h : ∀ s, P s → Q a s) :
    Meets step start P (Pure.pure a) Q R := fun _ s hs hp => ⟨s, hs, h s hp⟩

theorem Meets.observe {Q : α → S → Prop} (f : List E → α) (h : ∀ a s, P s → Q a s) :
    Meets step start P (.observe f) Q R := fun log s hs hp => ⟨s, hs, h (f log) s hp⟩

theorem Meets.weaken {m : Prog E α} {Q Q' : α → S → Prop} (h : Meets step start P m Q R)
    (hp : ∀ s, P' s → P s) (hq : ∀ a s, Q a s → Q' a s) (hr : ∀ s, R s → R' s) :
    Meets step start P' m Q' R' := by
  intro log s hs hp'
  obtain ⟨t, ht, hpost⟩ := h log s hs (hp s hp')
  refine ⟨t, ht, ?_⟩
  cases hm : (m log).1 with
  | none =>
    rw [hm] at hpost
    exact hr t hpost
  | some a =>
    rw [hm] at hpost
    exact hq a t hpost

theorem Meets.pre {m : Prog E α} {Q : α → S → Prop} (h : Meets step start P m Q R)
    (hp : ∀ s, P' s → P s) : Meets step start P' m Q R :=
  h.weaken hp (fun _ _ hq => hq) fun _ hr => hr

theorem Meets.bind {m : Prog E α} {f : α → Prog E β} {Q : α → S → Prop} {T : β → S → Prop}
    (hm : Meets step start P m Q R) (hf : ∀ a, Meets step start (Q a) (f a) T R) :
    Meets step start P (m >>= f) T R := by
  intro log s hs hp
  obtain ⟨t, ht, hpost⟩ := hm log s hs hp
  change ∃ u, Machine.run step start (Prog.bind m f log).2 = some u ∧
    match (Prog.bind m f log).1 with
    | some b => T b u
    | none => R u
  rcases hlog : m log with ⟨result, log'⟩
  rw [hlog] at ht hpost
  cases result with
  | none =>
    simp only [Prog.bind, hlog]
    exact ⟨t, ht, hpost⟩
  | some a =>
    simp only [Prog.bind, hlog]
    exact hf a log' t ht hpost

theorem Meets.ask {answer : List E → β} {event : β → E} {result : β → Option α}
    {Q : α → S → Prop} (h : ∀ b s, P s → ∃ t, step s (event b) = some t ∧
      match result b with
      | some a => Q a t
      | none => R t) : Meets step start P (.ask answer event result) Q R := by
  intro log s hs hp
  obtain ⟨t, ht, hpost⟩ := h (answer log) s hp
  refine ⟨t, ?_, hpost⟩
  change Machine.run step start (log ++ [event (answer log)]) = some t
  rw [Machine.run_append hs, Machine.run_cons, ht]
  rfl

theorem Meets.attempt {m : Prog E α} {Q : Bool → S → Prop}
    (h : Meets step start P m (fun _ => Q true) (Q false)) (R : S → Prop) :
    Meets step start P m.attempt Q R := by
  intro log s hs hp
  obtain ⟨t, ht, hpost⟩ := h log s hs hp
  rcases hlog : m log with ⟨result, log'⟩
  rw [hlog] at ht hpost
  cases result <;> (simp only [Prog.attempt, hlog]; exact ⟨t, ht, hpost⟩)

theorem Meets.always {m : Prog E α} {e : E} {Q Q' : α → S → Prop} (h : Meets step start P m Q R)
    (hq : ∀ a s, Q a s → ∃ t, step s e = some t ∧ Q' a t)
    (hr : ∀ s, R s → ∃ t, step s e = some t ∧ R' t) :
    Meets step start P (m.always e) Q' R' := by
  intro log s hs hp
  obtain ⟨t, ht, hpost⟩ := h log s hs hp
  have hthen : ∀ u, step t e = some u →
      Machine.run step start (m.always e log).2 = some u := by
    intro u hu
    change Machine.run step start ((m log).2 ++ [e]) = some u
    rw [Machine.run_append ht, Machine.run_cons, hu]
    rfl
  cases hm : (m log).1 with
  | none =>
    rw [hm] at hpost
    obtain ⟨u, hu, hpost'⟩ := hr t hpost
    refine ⟨u, hthen u hu, ?_⟩
    simp only [Prog.always, hm]
    exact hpost'
  | some a =>
    rw [hm] at hpost
    obtain ⟨u, hu, hpost'⟩ := hq a t hpost
    refine ⟨u, hthen u hu, ?_⟩
    simp only [Prog.always, hm]
    exact hpost'

/-- A loop over a list, whose invariant speaks of what is left of it. -/
theorem Meets.each {γ : Type w} {f : γ → Prog E Unit} {I : List γ → S → Prop}
    (h : ∀ c rest, Meets step start (I (c :: rest)) (f c) (fun _ => I rest) R) (l : List γ) :
    Meets step start (I l) (.each f l) (fun _ => I []) R := by
  induction l with
  | nil => exact .pure () fun _ hs => hs
  | cons c rest ih => exact .bind (h c rest) fun _ => ih

end Meets

end Monitored
