import HolderDaemon.Machine

/-!
Edits of an object that is read as a whole and written back as a whole. An object is seen through
its fields, a patch sets some of them, and several patches of one object run side by side, each
with its read and its write as steps of their own.
-/

set_option autoImplicit false

namespace Edits

universe u v w x y

section Patches
variable {O : Type u} {F : Type v} {V : Type w} (view : O → F → V) (E : Type x)

/-- What a patch sets does not depend on the object it is applied to. -/
structure Patch where
  sets : F → Option V
  apply : O → Except E O
  spec : ∀ o o', apply o = .ok o' → ∀ f, view o' f = (sets f).getD (view o f)

variable {view} {E}

/-- The object has the values that the patch sets. -/
def Patch.Carried (p : Patch view E) (o : O) : Prop := ∀ f v, p.sets f = some v → view o f = v

def Patch.Disjoint (p q : Patch view E) : Prop := ∀ f, p.sets f = none ∨ q.sets f = none

theorem Patch.Disjoint.symm {p q : Patch view E} (h : p.Disjoint q) : q.Disjoint p :=
  fun f => (h f).symm

theorem carried_apply {p : Patch view E} {o o' : O} (h : p.apply o = .ok o') : p.Carried o' := by
  intro f v hf
  rw [p.spec o o' h, hf, Option.getD_some]

/-- A patch of other fields neither brings values in nor takes them away. -/
theorem carried_apply_disjoint {p q : Patch view E} (hdisjoint : p.Disjoint q) {o o' : O}
    (h : q.apply o = .ok o') : p.Carried o' ↔ p.Carried o := by
  have hview : ∀ f v, p.sets f = some v → view o' f = view o f := by
    intro f v hf
    rcases hdisjoint f with hnone | hnone
    · rw [hf] at hnone
      cases hnone
    · rw [q.spec o o' h, hnone, Option.getD_none]
  constructor
  · intro hcarried f v hf
    rw [← hview f v hf, hcarried f v hf]
  · intro hcarried f v hf
    rw [hview f v hf, hcarried f v hf]

end Patches

section Runs
variable {O : Type u} {F : Type v} {V : Type w} {view : O → F → V} {E : Type x}
variable {W : Type y} [DecidableEq W]

/-- Where a patch is: before its read, with the object it has read, or answered. -/
inductive Job (O : Type u) where
  | waiting
  | holding (o : O)
  | answered (success : Bool)
  deriving DecidableEq

structure Shared (O : Type u) (W : Type y) where
  stored : O
  jobs : W → Job O := fun _ => .waiting

inductive Step (W : Type y) where
  | read (w : W)
  | write (w : W)
  deriving DecidableEq

def Step.worker : Step W → W
  | .read w => w
  | .write w => w

variable (patch : W → Patch view E)

def step (s : Shared O W) : Step W → Option (Shared O W)
  | .read w =>
    match s.jobs w with
    | .waiting => some { s with jobs := Function.update s.jobs w (.holding s.stored) }
    | _ => none
  | .write w =>
    match s.jobs w with
    | .holding o =>
      match (patch w).apply o with
      | .ok o' => some ⟨o', Function.update s.jobs w (.answered true)⟩
      | .error _ => some { s with jobs := Function.update s.jobs w (.answered false) }
    | _ => none

variable {patch}

theorem step_read {s t : Shared O W} {w : W} (h : step patch s (.read w) = some t) :
    s.jobs w = .waiting ∧ t = { s with jobs := Function.update s.jobs w (.holding s.stored) } := by
  simp only [step] at h
  split at h
  · rename_i hjob
    cases h
    exact ⟨hjob, rfl⟩
  · cases h

theorem step_write {s t : Shared O W} {w : W} (h : step patch s (.write w) = some t) :
    ∃ o success, s.jobs w = .holding o ∧
      t.jobs = Function.update s.jobs w (.answered success) ∧
      (success = true → (patch w).apply o = .ok t.stored) := by
  simp only [step] at h
  split at h
  · rename_i o hjob
    split at h
    · rename_i o' happly
      cases h
      exact ⟨o, true, hjob, rfl, fun _ => happly⟩
    · cases h
      exact ⟨o, false, hjob, rfl, fun hno => by cases hno⟩
  · cases h

/-! Two patches -/

/-- Only these two take steps, and both are answered with success at the end. -/
structure Ends (patch : W → Patch view E) (a b : W) (s : Shared O W) (labels : List (Step W))
    (t : Shared O W) : Prop where
  workers : ∀ l ∈ labels, l.worker = a ∨ l.worker = b
  run : Machine.run (step patch) s labels = some t
  first : t.jobs a = .answered true
  second : t.jobs b = .answered true

variable {a b : W} {s t : Shared O W} {labels : List (Step W)}

theorem Ends.symm (h : Ends patch a b s labels t) : Ends patch b a s labels t :=
  ⟨fun l hl => (h.workers l hl).symm, h.run, h.second, h.first⟩

/-- The next label of two patches that are not both answered. -/
theorem Ends.next (h : Ends patch a b s labels t) (hs : ∀ success, s.jobs b ≠ .answered success) :
    ∃ l rest m, labels = l :: rest ∧ (l.worker = a ∨ l.worker = b) ∧ step patch s l = some m ∧
      Ends patch a b m rest t := by
  cases labels with
  | nil =>
    have hrun := h.run
    cases hrun
    exact absurd h.second (hs true)
  | cons l rest =>
    obtain ⟨m, hstep, hrun⟩ := Machine.run_cons_some (step patch) h.run
    exact ⟨l, rest, m, rfl, h.workers l List.mem_cons_self, hstep,
      fun l hl => h.workers l (List.mem_cons_of_mem _ hl), hrun, h.first, h.second⟩

theorem step_not_answered {l : Step W} (h : step patch s l = some t) (success : Bool) :
    s.jobs l.worker ≠ .answered success := by
  intro hjob
  cases l with
  | read w =>
    have hwaiting := hjob.symm.trans (step_read h).1
    cases hwaiting
  | write w =>
    obtain ⟨o, _, hholding, _⟩ := step_write h
    have hsame := hjob.symm.trans hholding
    cases hsame

theorem Ends.done (h : Ends patch a b s labels t) {x y : Bool}
    (ha : s.jobs a = .answered x) (hb : s.jobs b = .answered y) :
    labels = [] ∧ t = s ∧ x = true ∧ y = true := by
  cases labels with
  | nil =>
    have hrun := h.run
    cases hrun
    have hx := ha.symm.trans h.first
    have hy := hb.symm.trans h.second
    cases hx
    cases hy
    exact ⟨rfl, rfl, rfl, rfl⟩
  | cons l rest =>
    obtain ⟨m, hstep, -⟩ := Machine.run_cons_some (step patch) h.run
    rcases h.workers l List.mem_cons_self with hw | hw
    · exact absurd (hw ▸ ha) (step_not_answered hstep x)
    · exact absurd (hw ▸ hb) (step_not_answered hstep y)

/-- The next label is the other patch's where one is answered. -/
theorem Ends.next_other (h : Ends patch a b s labels t) {x : Bool}
    (ha : s.jobs a = .answered x) (hs : ∀ success, s.jobs b ≠ .answered success) :
    ∃ l rest m, labels = l :: rest ∧ l.worker = b ∧ step patch s l = some m ∧
      Ends patch a b m rest t := by
  obtain ⟨l, rest, m, hlabels, hw, hstep, hrest⟩ := h.next hs
  refine ⟨l, rest, m, hlabels, hw.resolve_left fun hwa => ?_, hstep, hrest⟩
  exact step_not_answered hstep x (hwa ▸ ha)

/-- One patch is answered, and the other one has read. -/
theorem Ends.last (h : Ends patch a b s labels t) (hne : a ≠ b) {x : Bool} {o : O}
    (ha : s.jobs a = .answered x) (hb : s.jobs b = .holding o) :
    labels = [.write b] ∧ x = true ∧ (patch b).apply o = .ok t.stored := by
  obtain ⟨l, rest, m, rfl, hw, hstep, hrest⟩ := h.next_other ha fun success hjob => by
    rw [hb] at hjob
    cases hjob
  cases l with
  | read w =>
    obtain rfl : w = b := hw
    have hjob := hb.symm.trans (step_read hstep).1
    cases hjob
  | write w =>
    obtain rfl : w = b := hw
    obtain ⟨o', success, hjob, hjobs, happly⟩ := step_write hstep
    have hsame := hb.symm.trans hjob
    cases hsame
    obtain ⟨rfl, rfl, rfl, rfl⟩ := hrest.done
      (by rw [hjobs, Function.update_of_ne hne, ha]) (by rw [hjobs, Function.update_self])
    exact ⟨rfl, rfl, happly rfl⟩

/-- One patch is answered, and the other one has not read. -/
theorem Ends.after (h : Ends patch a b s labels t) (hne : a ≠ b) {x : Bool}
    (ha : s.jobs a = .answered x) (hb : s.jobs b = .waiting) :
    labels = [.read b, .write b] ∧ x = true ∧ (patch b).apply s.stored = .ok t.stored := by
  obtain ⟨l, rest, m, rfl, hw, hstep, hrest⟩ := h.next_other ha fun success hjob => by
    rw [hb] at hjob
    cases hjob
  cases l with
  | read w =>
    obtain rfl : w = b := hw
    obtain ⟨-, rfl⟩ := step_read hstep
    obtain ⟨rfl, hx, happly⟩ := hrest.last hne
      (by dsimp only; rw [Function.update_of_ne hne, ha])
      (by dsimp only; rw [Function.update_self])
    exact ⟨rfl, hx, happly⟩
  | write w =>
    obtain rfl : w = b := hw
    obtain ⟨o, _, hjob, _⟩ := step_write hstep
    have hsame := hb.symm.trans hjob
    cases hsame

/-- Both patches have read. -/
theorem Ends.both (h : Ends patch a b s labels t) (hne : a ≠ b) {o : O}
    (ha : s.jobs a = .holding o) (hb : s.jobs b = .holding o) :
    (labels = [.write a, .write b] ∧ (patch b).apply o = .ok t.stored) ∨
      (labels = [.write b, .write a] ∧ (patch a).apply o = .ok t.stored) := by
  obtain ⟨l, rest, m, rfl, hw, hstep, hrest⟩ := h.next fun success hjob => by
    rw [hb] at hjob
    cases hjob
  cases l with
  | read w =>
    have hwaiting := (step_read hstep).1
    rcases hw with hw | hw
    · obtain rfl : w = a := hw
      rw [ha] at hwaiting
      cases hwaiting
    · obtain rfl : w = b := hw
      rw [hb] at hwaiting
      cases hwaiting
  | write w =>
    obtain ⟨o', success, hjob, hjobs, happly⟩ := step_write hstep
    rcases hw with hw | hw
    · obtain rfl : w = a := hw
      obtain ⟨rfl, -, hlast⟩ := hrest.last hne (by rw [hjobs, Function.update_self])
        (by rw [hjobs, Function.update_of_ne hne.symm, hb])
      exact .inl ⟨rfl, hlast⟩
    · obtain rfl : w = b := hw
      obtain ⟨rfl, -, hlast⟩ := hrest.symm.last hne.symm (by rw [hjobs, Function.update_self])
        (by rw [hjobs, Function.update_of_ne hne, ha])
      exact .inr ⟨rfl, hlast⟩

/-- The first patch has read. -/
theorem Ends.opened (h : Ends patch a b s labels t) (hne : a ≠ b)
    (ha : s.jobs a = .holding s.stored) (hb : s.jobs b = .waiting) :
    (labels = [.write a, .read b, .write b] ∧
        ∃ o, (patch a).apply s.stored = .ok o ∧ (patch b).apply o = .ok t.stored) ∨
      (labels = [.read b, .write a, .write b] ∧ (patch b).apply s.stored = .ok t.stored) ∨
      (labels = [.read b, .write b, .write a] ∧ (patch a).apply s.stored = .ok t.stored) := by
  obtain ⟨l, rest, m, rfl, hw, hstep, hrest⟩ := h.next fun success hjob => by
    rw [hb] at hjob
    cases hjob
  cases l with
  | read w =>
    obtain ⟨hwaiting, rfl⟩ := step_read hstep
    rcases hw with hw | hw
    · obtain rfl : w = a := hw
      rw [ha] at hwaiting
      cases hwaiting
    · obtain rfl : w = b := hw
      right
      rcases hrest.both hne (o := s.stored) (by dsimp only; rw [Function.update_of_ne hne, ha])
        (by dsimp only; rw [Function.update_self]) with ⟨rfl, hlast⟩ | ⟨rfl, hlast⟩
      · exact .inl ⟨rfl, hlast⟩
      · exact .inr ⟨rfl, hlast⟩
  | write w =>
    obtain ⟨o', success, hjob, hjobs, happly⟩ := step_write hstep
    rcases hw with hw | hw
    · obtain rfl : w = a := hw
      rw [ha] at hjob
      cases hjob
      obtain ⟨rfl, rfl, hlast⟩ := hrest.after hne (by rw [hjobs, Function.update_self])
        (by rw [hjobs, Function.update_of_ne hne.symm, hb])
      exact .inl ⟨rfl, _, happly rfl, hlast⟩
    · obtain rfl : w = b := hw
      rw [hb] at hjob
      cases hjob

/-- One request has read before the write of the other and writes after it. -/
def Overwrites (labels : List (Step W)) (x y : W) : Prop :=
  labels.idxOf (.read x) < labels.idxOf (.write y) ∧
    labels.idxOf (.write y) < labels.idxOf (.write x)

instance (labels : List (Step W)) (x y : W) : Decidable (Overwrites labels x y) :=
  inferInstanceAs (Decidable (_ ∧ _))

/-- Two patches of different fields, the first to read being `a`. -/
theorem both_carried_opened {start : O} (h : Ends patch a b ⟨start, fun _ => .waiting⟩
      (.read a :: labels) t) (hne : a ≠ b) (hdisjoint : (patch a).Disjoint (patch b)) :
    ((patch a).Carried t.stored ∧ (patch b).Carried t.stored) ↔
      (Overwrites (.read a :: labels) a b → (patch b).Carried start) ∧
        (Overwrites (.read a :: labels) b a → (patch a).Carried start) := by
  obtain ⟨m, hstep, hrun⟩ := Machine.run_cons_some (step patch) h.run
  obtain ⟨-, rfl⟩ := step_read hstep
  have hrest : Ends patch a b _ labels t :=
    ⟨fun l hl => h.workers l (List.mem_cons_of_mem _ hl), hrun, h.first, h.second⟩
  rcases hrest.opened hne (by dsimp only; rw [Function.update_self])
    (by dsimp only; rw [Function.update_of_ne hne.symm]) with
      ⟨rfl, o, hfirst, hlast⟩ | ⟨rfl, hlast⟩ | ⟨rfl, hlast⟩
  · have hcarried := (carried_apply_disjoint hdisjoint hlast).mpr (carried_apply hfirst)
    simp [Overwrites, hne, hcarried, carried_apply hlast]
  · simp [Overwrites, hne, carried_apply hlast, carried_apply_disjoint hdisjoint hlast]
  · simp [Overwrites, hne, hne.symm, carried_apply hlast,
      carried_apply_disjoint hdisjoint.symm hlast]

/-- Two patches of different fields are both kept exactly where a request that has read before
the other's write and writes after it has read the other's values. -/
theorem both_carried_iff {start : O} (h : Ends patch a b ⟨start, fun _ => .waiting⟩ labels t)
    (hne : a ≠ b) (hdisjoint : (patch a).Disjoint (patch b)) :
    ((patch a).Carried t.stored ∧ (patch b).Carried t.stored) ↔
      (Overwrites labels a b → (patch b).Carried start) ∧
        (Overwrites labels b a → (patch a).Carried start) := by
  obtain ⟨l, rest, m, rfl, hw, hstep, -⟩ := h.next fun success hjob => by cases hjob
  cases l with
  | read w =>
    rcases hw with hw | hw
    · obtain rfl : w = a := hw
      exact both_carried_opened h hne hdisjoint
    · obtain rfl : w = b := hw
      rw [and_comm, both_carried_opened h.symm hne.symm hdisjoint.symm, and_comm]
  | write w =>
    obtain ⟨o, _, hjob, _⟩ := step_write hstep
    cases hjob

end Runs

end Edits
