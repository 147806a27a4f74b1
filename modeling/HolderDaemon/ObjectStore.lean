import Mathlib

/-!
A store of objects under keys whose operations may fail without saying whether they were carried
out, what its history then tells about it, and how an implementation is shown to be one.
-/

set_option autoImplicit false

namespace ObjectStore

universe u v w x

abbrev Store (κ : Type u) (β : Type v) := κ → Option β

inductive Op (κ : Type u) (β : Type v) where
  | put (key : κ) (object : β)
  | get (key : κ)
  | holds (key : κ)
  | remove (key : κ)

inductive Result (β : Type v) where
  | done
  | object (object : β)
  | holds (answer : Bool)
  | failed

section Store
variable {κ : Type u} {β : Type v} [DecidableEq κ]

def Op.key : Op κ β → κ
  | .put key _ | .get key | .holds key | .remove key => key

/-- What the operation writes under its key. -/
def Op.writes : Op κ β → Option (Option β)
  | .put _ object => some (some object)
  | .remove _ => some none
  | .get _ | .holds _ => none

def Op.effect (op : Op κ β) (s : Store κ β) : Store κ β :=
  match op.writes with
  | some value => Function.update s op.key value
  | none => s

/-- A `get` of what is not there fails. -/
def Op.answer (s : Store κ β) : Op κ β → Result β
  | .put .. | .remove _ => .done
  | .get key => (s key).elim .failed .object
  | .holds key => .holds (s key).isSome

/-- An operation that fails may have been carried out. -/
def Allowed (op : Op κ β) (s : Store κ β) (r : Result β) (t : Store κ β) : Prop :=
  (r = op.answer s ∧ t = op.effect s) ∨ (r = .failed ∧ (t = s ∨ t = op.effect s))

theorem Allowed.failed (op : Op κ β) (s : Store κ β) : Allowed op s .failed s :=
  .inr ⟨rfl, .inl rfl⟩

theorem Allowed.unknown (op : Op κ β) (s : Store κ β) : Allowed op s .failed (op.effect s) :=
  .inr ⟨rfl, .inr rfl⟩

theorem effect_of_ne {op : Op κ β} {key : κ} (h : op.key ≠ key) (s : Store κ β) :
    op.effect s key = s key := by
  rw [Op.effect]
  cases op.writes with
  | none => rfl
  | some value => exact Function.update_of_ne (Ne.symm h) value s

theorem effect_key {op : Op κ β} {value : Option β} (h : op.writes = some value)
    (s : Store κ β) : op.effect s op.key = value := by
  rw [Op.effect, h]
  exact Function.update_self op.key value s

theorem effect_of_reads {op : Op κ β} (h : op.writes = none) (s : Store κ β) :
    op.effect s = s := by rw [Op.effect, h]

/-- An operation that is allowed, and answers where it is `sure` to. -/
structure Answered (op : Op κ β) (sure : Prop) (s : Store κ β) (r : Result β) (t : Store κ β) :
    Prop where
  allowed : Allowed op s r t
  answers : sure → r = op.answer s

theorem Answered.failed (op : Op κ β) {sure : Prop} (s : Store κ β) (h : ¬ sure) :
    Answered op sure s .failed s := ⟨.failed op s, fun hsure => absurd hsure h⟩

theorem Answered.read {op : Op κ β} (sure : Prop) (s : Store κ β) (h : op.writes = none) :
    Answered op sure s (op.answer s) s :=
  ⟨.inl ⟨rfl, (effect_of_reads h s).symm⟩, fun _ => rfl⟩

/-- A write that was carried out, and may have failed to say so. -/
theorem Answered.wrote {op : Op κ β} {sure : Prop} {s : Store κ β} {r : Result β}
    (h : r = op.answer s ∨ (r = .failed ∧ ¬ sure)) : Answered op sure s r (op.effect s) where
  allowed := by
    rcases h with rfl | ⟨rfl, -⟩
    · exact .inl ⟨rfl, rfl⟩
    · exact .unknown op s
  answers hsure := h.resolve_right fun hfailed => hfailed.2 hsure

/-! Histories -/

def Explains : Store κ β → List (Op κ β × Result β) → Store κ β → Prop
  | s, [], t => s = t
  | s, (op, r) :: history, t => ∃ m, Allowed op s r m ∧ Explains m history t

def Result.isFailed : Result β → Bool
  | .failed => true
  | _ => false

/-- What a key may hold after the operation: a write that succeeded leaves no doubt, one that
failed adds one value. -/
def Op.candidates (key : κ) (op : Op κ β) (r : Result β) (values : List (Option β)) :
    List (Option β) :=
  if op.key = key then
    match op.writes with
    | some value => if r.isFailed then value :: values else [value]
    | none => values
  else values

def candidates (key : κ) : List (Option β) → List (Op κ β × Result β) → List (Option β)
  | values, [] => values
  | values, (op, r) :: history => candidates key (op.candidates key r values) history

theorem Allowed.candidates {op : Op κ β} {s t : Store κ β} {r : Result β} {key : κ}
    {values : List (Option β)} (h : Allowed op s r t) (hs : s key ∈ values) :
    t key ∈ op.candidates key r values := by
  rw [Op.candidates]
  by_cases hkey : op.key = key
  · subst hkey
    rw [if_pos rfl]
    cases hwrites : op.writes with
    | none =>
      rcases h with ⟨-, rfl⟩ | ⟨-, rfl | rfl⟩
      · rwa [effect_of_reads hwrites]
      · exact hs
      · rwa [effect_of_reads hwrites]
    | some value =>
      have heffect := effect_key hwrites s
      rcases h with ⟨-, rfl⟩ | ⟨rfl, rfl | rfl⟩
      · rw [heffect]
        by_cases hfailed : r.isFailed = true
        · simp only [if_pos hfailed]
          exact List.mem_cons_self
        · simp only [if_neg hfailed]
          exact List.mem_singleton_self value
      · exact List.mem_cons_of_mem _ hs
      · rw [heffect]
        exact List.mem_cons_self
  · rw [if_neg hkey]
    rcases h with ⟨-, rfl⟩ | ⟨-, rfl | rfl⟩
    · rwa [effect_of_ne hkey]
    · exact hs
    · rwa [effect_of_ne hkey]

theorem Explains.candidates {s t : Store κ β} {history : List (Op κ β × Result β)}
    (h : Explains s history t) {key : κ} {values : List (Option β)} (hs : s key ∈ values) :
    t key ∈ candidates key values history := by
  induction history generalizing s values with
  | nil =>
    cases h
    exact hs
  | cons entry history ih =>
    obtain ⟨m, hallowed, hrest⟩ := h
    exact ih hrest (hallowed.candidates hs)

theorem Explains.split {s t : Store κ β} {before after : List (Op κ β × Result β)}
    (h : Explains s (before ++ after) t) : ∃ m, Explains s before m ∧ Explains m after t := by
  induction before generalizing s with
  | nil => exact ⟨s, rfl, h⟩
  | cons entry before ih =>
    obtain ⟨u, hallowed, hrest⟩ := h
    obtain ⟨m, hbefore, hafter⟩ := ih hrest
    exact ⟨m, ⟨u, hallowed, hbefore⟩, hafter⟩

/-- What can be said of a store from its history. -/
structure Reliable (s : Store κ β) (history : List (Op κ β × Result β)) (t : Store κ β) :
    Prop where
  explained : Explains s history t
  current : ∀ key, t key ∈ candidates key [s key] history
  read : ∀ before key object after, history = before ++ (.get key, .object object) :: after →
    some object ∈ candidates key [s key] before
  asked : ∀ before key answer after, history = before ++ (.holds key, .holds answer) :: after →
    ∃ value ∈ candidates key [s key] before, answer = value.isSome

theorem Explains.reliable {s t : Store κ β} {history : List (Op κ β × Result β)}
    (h : Explains s history t) : Reliable s history t where
  explained := h
  current _ := h.candidates (List.mem_singleton_self _)
  read before key object after heq := by
    subst heq
    obtain ⟨m, hbefore, u, hallowed, -⟩ := h.split
    have hmem : m key ∈ ObjectStore.candidates key [s key] before :=
      hbefore.candidates (List.mem_singleton_self _)
    rcases hallowed with ⟨hanswer, -⟩ | ⟨hfailed, -⟩
    · cases hm : m key with
      | none =>
        rw [Op.answer, hm] at hanswer
        cases hanswer
      | some held =>
        rw [Op.answer, hm] at hanswer
        cases hanswer
        exact hm ▸ hmem
    · cases hfailed
  asked before key answer after heq := by
    subst heq
    obtain ⟨m, hbefore, u, hallowed, -⟩ := h.split
    have hmem : m key ∈ ObjectStore.candidates key [s key] before :=
      hbefore.candidates (List.mem_singleton_self _)
    rcases hallowed with ⟨hanswer, -⟩ | ⟨hfailed, -⟩
    · cases hanswer
      exact ⟨m key, hmem, rfl⟩
    · cases hfailed

/-! Implementations -/

section Implementation
variable {σ : Type w} {ι : Type x} (exec : σ → Op κ β → ι → Result β × σ)

/-- The operations one after the other, each with what its environment does. -/
def run : σ → List (Op κ β × ι) → List (Op κ β × Result β) × σ
  | s, [] => ([], s)
  | s, (op, i) :: ops =>
    let (r, t) := exec s op i
    let (history, u) := run t ops
    ((op, r) :: history, u)

variable {exec}

theorem run_explains {inv : σ → Prop} {ok : Op κ β → Prop} {view : σ → Store κ β}
    (step : ∀ s op i, inv s → ok op →
      inv (exec s op i).2 ∧ Allowed op (view s) (exec s op i).1 (view (exec s op i).2))
    {s : σ} (hs : inv s) {ops : List (Op κ β × ι)} (hok : ∀ p ∈ ops, ok p.1) :
    inv (run exec s ops).2 ∧ Explains (view s) (run exec s ops).1 (view (run exec s ops).2) := by
  induction ops generalizing s with
  | nil => exact ⟨hs, rfl⟩
  | cons p ops ih =>
    obtain ⟨op, i⟩ := p
    obtain ⟨hinv, hallowed⟩ := step s op i hs (hok _ List.mem_cons_self)
    obtain ⟨hend, hexplains⟩ := ih hinv fun q hq => hok q (List.mem_cons_of_mem _ hq)
    exact ⟨hend, _, hallowed, hexplains⟩

end Implementation

end Store

end ObjectStore
