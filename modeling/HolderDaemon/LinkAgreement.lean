import HolderDaemon.LinkRequests
import HolderDaemon.Machine

/-!
Whether rows and files agree after link and milestone requests, any call of which may throw.
-/

set_option autoImplicit false

open Bytes
open Json (of_bind_ok)

namespace HolderDaemon

namespace Links

open Milestones (Milestone)

universe u v

section Requests
variable {T : Type u} {M : Type v} {links : LinkRepo T} {milestones : MilestoneRepo M}

/-- Every owner has the rows it had. -/
structure SameRows (links : LinkRepo T) (milestones : MilestoneRepo M) (s t : State T M) : Prop where
  links : ∀ p o, links.listOutgoing t.links p o = links.listOutgoing s.links p o
  milestones : ∀ p c, milestones.listForCard t.milestones p c =
    milestones.listForCard s.milestones p c

theorem SameRows.refl (s : State T M) : SameRows links milestones s s :=
  ⟨fun _ _ => rfl, fun _ _ => rfl⟩

/-- Rows and files agree. -/
structure Agree (links : LinkRepo T) (milestones : MilestoneRepo M) (s : State T M) : Prop where
  links : ∀ p o, s.linkFiles p o = links.listOutgoing s.links p o
  milestones : ∀ p c, s.milestoneFiles p c = milestones.listForCard s.milestones p c

/-- Where the writing of the file throws, the rows had not really changed. -/
def Whole (links : LinkRepo T) (milestones : MilestoneRepo M) (s : State T M) (r : Sent) : Prop :=
  ∀ p e, plan links milestones r.directory r.truncate r.now s r.request = .ok p →
    p.edit = some e → r.fault = some (p.reads + 1) →
      SameRows links milestones s (e.apply links milestones s)

def step (links : LinkRepo T) (milestones : MilestoneRepo M) (s : State T M) (r : Sent) :
    Option (State T M) := some (handle links milestones s r).2

/-! One request -/

def act (links : LinkRepo T) (milestones : MilestoneRepo M) (s : State T M) (c : Call) :
    Option (State T M) := some (c.apply links milestones s)

/-- The state after all calls of a plan. -/
def Plan.done (p : Plan) (links : LinkRepo T) (milestones : MilestoneRepo M) (s : State T M) :
    State T M :=
  match p.edit with
  | some e => e.rewrite links milestones (e.apply links milestones s)
  | none => s

theorem foldlM_reads (n : Nat) (s : State T M) :
    (List.replicate n Call.read).foldlM (act links milestones) s = some s :=
  Effects.foldlM_still fun c hc => by
    rw [List.eq_of_mem_replicate hc]
    rfl

theorem run_spared {p : Plan} {fault : Option Nat} (h : Effects.Spares fault p.calls.length)
    (s : State T M) :
    Effects.run (act links milestones) fault p.calls s = (true, p.done links milestones s) := by
  refine Effects.run_completes h ?_
  rw [Plan.calls, List.foldlM_append, foldlM_reads, Option.bind_eq_bind, Option.bind_some, Plan.done]
  cases p.edit <;> rfl

/-- The writing of the file throws. -/
theorem run_rewrite_throws {p : Plan} {e : Edit} (he : p.edit = some e) (s : State T M) :
    Effects.run (act links milestones) (some (p.reads + 1)) p.calls s =
      (false, e.apply links milestones s) := by
  refine Effects.run_cut ?_ ?_
  · simp [Plan.calls, he]
  · have htake : p.calls.take (p.reads + 1) = List.replicate p.reads .read ++ [.edit e] := by
      rw [Plan.calls, he, List.take_append, List.length_replicate, Nat.add_sub_cancel_left,
        List.take_of_length_le (by simp)]
      rfl
    rw [htake, List.foldlM_append, foldlM_reads]
    rfl

/-- A read or the edit throws. -/
theorem run_throws {p : Plan} {k : Nat} (hk : k < p.calls.length)
    (hedit : ∀ e, p.edit = some e → k ≠ p.reads + 1) (s : State T M) :
    Effects.run (act links milestones) (some k) p.calls s = (false, s) := by
  have hle : k ≤ p.reads := by
    cases he : p.edit with
    | none =>
      simp only [Plan.calls, he, List.append_nil, List.length_replicate] at hk
      exact Nat.le_of_lt hk
    | some e =>
      simp only [Plan.calls, he, List.length_append, List.length_replicate, List.length_cons,
        List.length_nil] at hk
      have hne := hedit e he
      omega
  refine Effects.run_unmoved hk fun c hc => ?_
  rw [Plan.calls, List.take_append_of_le_length (by simpa using hle)] at hc
  rw [List.eq_of_mem_replicate (List.mem_of_mem_take hc)]
  rfl

/-- How a request that passed its checks ends. -/
theorem handle_cases {s : State T M} {r : Sent} {p : Plan}
    (hp : plan links milestones r.directory r.truncate r.now s r.request = .ok p) :
    (handle links milestones s r = (.threw, s) ∧
        ∀ e, p.edit = some e → r.fault ≠ some (p.reads + 1)) ∨
      (∃ e, p.edit = some e ∧ r.fault = some (p.reads + 1) ∧
        handle links milestones s r = (.threw, e.apply links milestones s)) ∨
      (handle links milestones s r = (p.reply, p.done links milestones s) ∧
        ∀ e, p.edit = some e → r.fault ≠ some (p.reads + 1)) := by
  have hhandle : handle links milestones s r =
      (if (Effects.run (act links milestones) r.fault p.calls s).1 then p.reply else .threw,
        (Effects.run (act links milestones) r.fault p.calls s).2) := by
    rw [handle, hp]
    rfl
  rw [hhandle]
  by_cases hspares : Effects.Spares r.fault p.calls.length
  · refine .inr (.inr ⟨by rw [run_spared hspares]; rfl, fun e he hfault => ?_⟩)
    have hle := hspares _ hfault
    simp only [Plan.calls, he, List.length_append, List.length_replicate, List.length_cons,
      List.length_nil] at hle
    omega
  · obtain ⟨k, hfault, hk⟩ := Effects.exists_of_not_spares hspares
    rw [hfault]
    by_cases hedit : ∃ e, p.edit = some e ∧ k = p.reads + 1
    · obtain ⟨e, he, rfl⟩ := hedit
      exact .inr (.inl ⟨e, he, rfl, by rw [run_rewrite_throws he]; rfl⟩)
    · have hne : ∀ e, p.edit = some e → k ≠ p.reads + 1 := fun e he hk' => hedit ⟨e, he, hk'⟩
      exact .inl ⟨by rw [run_throws hk hne]; rfl, fun e he h => hne e he (Option.some.inj h)⟩

/-- An error leaves the rows as they were exactly under this condition. -/
theorem error_sameRows_iff (s : State T M) (r : Sent) :
    ((handle links milestones s r).1.isError = true →
        SameRows links milestones s (handle links milestones s r).2) ↔
      Whole links milestones s r := by
  unfold Whole
  cases hplan : plan links milestones r.directory r.truncate r.now s r.request with
  | error reply =>
    have hhandle : handle links milestones s r = (reply, s) := by rw [handle, hplan]
    rw [hhandle]
    exact ⟨fun _ p e hp => (by cases hp), fun _ _ => .refl s⟩
  | ok p =>
    rcases handle_cases hplan with ⟨hhandle, hfault⟩ | ⟨e, he, hfault, hhandle⟩ |
      ⟨hhandle, hfault⟩
    · rw [hhandle]
      refine ⟨fun _ q e hq he hf => ?_, fun _ _ => .refl s⟩
      cases hq
      exact absurd hf (hfault e he)
    · rw [hhandle]
      refine ⟨fun h q e' hq he' _ => ?_, fun h _ => h p e rfl he hfault⟩
      cases hq
      rw [he] at he'
      cases he'
      exact h rfl
    · rw [hhandle, p.success]
      refine ⟨fun _ q e hq he hf => ?_, fun _ h => (by cases h)⟩
      cases hq
      exact absurd hf (hfault e he)

/-! Rows and files -/

theorem Agree.rewriteLinks {s : State T M} (h : Agree links milestones s) {t : T} {p o : Bytes}
    (hframe : ∀ q o', (q, o') ≠ (p, o) →
      links.listOutgoing t q o' = links.listOutgoing s.links q o') :
    Agree links milestones (Links.rewriteLinks links { s with links := t } p o) where
  links q o' := by
    show Function.update s.linkFiles p (Function.update (s.linkFiles p) o _) q o' = _
    by_cases hq : q = p
    · subst hq
      rw [Function.update_self]
      by_cases ho : o' = o
      · subst ho
        rw [Function.update_self]
        rfl
      · rw [Function.update_of_ne ho, h.links]
        exact (hframe q o' fun heq => ho (Prod.mk.inj heq).2).symm
    · rw [Function.update_of_ne hq, h.links]
      exact (hframe q o' fun heq => hq (Prod.mk.inj heq).1).symm
  milestones := h.milestones

theorem Agree.rewriteMilestones {s : State T M} (h : Agree links milestones s) {m : M}
    {p c : Bytes} (hframe : ∀ q c', (q, c') ≠ (p, c) →
      milestones.listForCard m q c' = milestones.listForCard s.milestones q c') :
    Agree links milestones (Links.rewriteMilestones milestones { s with milestones := m } p c) where
  links := h.links
  milestones q c' := by
    show Function.update s.milestoneFiles p (Function.update (s.milestoneFiles p) c _) q c' = _
    by_cases hq : q = p
    · subst hq
      rw [Function.update_self]
      by_cases hc : c' = c
      · subst hc
        rw [Function.update_self]
        rfl
      · rw [Function.update_of_ne hc, h.milestones]
        exact (hframe q c' fun heq => hc (Prod.mk.inj heq).2).symm
    · rw [Function.update_of_ne hq, h.milestones]
      exact (hframe q c' fun heq => hq (Prod.mk.inj heq).1).symm

/-- An edit whose file is written. -/
theorem Agree.done {s : State T M} (h : Agree links milestones s) (p : Plan) :
    Agree links milestones (p.done links milestones s) := by
  unfold Plan.done
  cases p.edit with
  | none => exact h
  | some e =>
    cases e with
    | upsertLink link => exact h.rewriteLinks (links.upsert_frame s.links _ _ _)
    | deleteLink projectId fromCardId toCardId toType kind =>
      exact h.rewriteLinks (links.deleteLink_frame s.links _ _ _ _ _)
    | deleteLinksFrom projectId fromCardId =>
      exact h.rewriteLinks (links.deleteLinksFrom_frame s.links _ _)
    | replaceMilestones projectId cardId listed =>
      exact h.rewriteMilestones (milestones.replace_frame s.milestones _ _ _)

theorem Agree.of_sameRows {s : State T M} (h : Agree links milestones s) {e : Edit}
    (hsame : SameRows links milestones s (e.apply links milestones s)) :
    Agree links milestones (e.apply links milestones s) where
  links p o := by
    rw [hsame.links, ← h.links]
    cases e <;> rfl
  milestones p c := by
    rw [hsame.milestones, ← h.milestones]
    cases e <;> rfl

theorem Agree.handle {s : State T M} (h : Agree links milestones s) {r : Sent}
    (hwhole : Whole links milestones s r) :
    Agree links milestones (Links.handle links milestones s r).2 := by
  cases hplan : plan links milestones r.directory r.truncate r.now s r.request with
  | error reply =>
    rw [Links.handle, hplan]
    exact h
  | ok p =>
    rcases handle_cases hplan with ⟨hhandle, -⟩ | ⟨e, he, hfault, hhandle⟩ | ⟨hhandle, -⟩
    · rw [hhandle]
      exact h
    · rw [hhandle]
      exact h.of_sameRows (hwhole p e hplan he hfault)
    · rw [hhandle]
      exact h.done p

/-! Requests that are repeated -/

/-- A request sees the rows of its owner only. -/
theorem plan_congr {s t : State T M} (h : SameRows links milestones s t) (d : Directory)
    (truncate : Bytes → Int) (now : Int) (r : Request) :
    plan links milestones d truncate now t r = plan links milestones d truncate now s r := by
  cases r with
  | resource attaching cardId body => simp only [plan, planResource, h.links]
  | addMilestone cardId uuid body => simp only [plan, planAddMilestone, h.milestones]
  | removeMilestone cardId milestoneId => simp only [plan, planRemoveMilestone, h.milestones]
  | linkCard cardId body => rfl
  | unlinkCard cardId body => rfl
  | linkMessage messageId body => rfl
  | unlinkMessage messageId body => rfl

/-- An attachment that is not there is answered as attached. -/
theorem planResource_reply {d : Directory} {t : T} {now : Int} {cardId : Bytes}
    {body : Except Bytes Json} {p : Plan}
    (h : planResource links d t now true cardId body = .ok p) (hedit : p.edit ≠ none) :
    p.reply = .resource (ascii "attached") true := by
  unfold planResource at h
  obtain ⟨json, -, h⟩ := of_bind_ok h
  obtain ⟨projectId, -, h⟩ := of_bind_ok h
  obtain ⟨resourceId, -, h⟩ := of_bind_ok h
  split at h
  · cases h
  · split at h
    · cases h
    · split at h
      · cases h
      · split at h
        · cases h
        · split at h
          · cases h
          · cases h
            cases hpresent : (links.listOutgoing t projectId cardId).any (isAttachment resourceId) with
            | true =>
              exact absurd (by simp [hpresent]) hedit
            | false => rfl

/-- Repeating an attachment that failed writes it. -/
theorem repeated_attachment {s : State T M} {r : Sent} (hwhole : Whole links milestones s r)
    {cardId : Bytes} {body : Except Bytes Json} (hr : r.request = .resource true cardId body)
    {p : Plan} (hp : plan links milestones r.directory r.truncate r.now s r.request = .ok p)
    (hedit : p.edit ≠ none) (herror : (handle links milestones s r).1.isError = true) :
    handle links milestones (handle links milestones s r).2 { r with fault := none } =
      (.resource (ascii "attached") true,
        p.done links milestones (handle links milestones s r).2) := by
  have hsame := (error_sameRows_iff s r).mpr hwhole herror
  have hplan : plan links milestones r.directory r.truncate r.now
      (handle links milestones s r).2 r.request = .ok p := by
    rw [plan_congr hsame, hp]
  have hreply : p.reply = .resource (ascii "attached") true := by
    rw [hr] at hp
    exact planResource_reply hp hedit
  rw [handle, hplan]
  dsimp only
  rw [show Effects.run (fun t c => some (Call.apply links milestones t c)) none p.calls _ = _ from
    run_spared (fun k hk => (by cases hk)) _, if_pos rfl, hreply]

/-- An error leaves the rows as they were exactly where the writing of the file does not throw
after they have changed; and where it does not, rows and files agree in every state, and an
attachment that failed is written when it is repeated. -/
theorem edits_whole {start s : State T M} {requests : List Sent}
    (hstart : Agree links milestones start)
    (hok : Machine.Along (step links milestones) (Whole links milestones) start requests)
    (hrun : Machine.run (step links milestones) start requests = some s) :
    (∀ (before : State T M) (r : Sent), ((handle links milestones before r).1.isError = true →
        SameRows links milestones before (handle links milestones before r).2) ↔
      Whole links milestones before r) ∧
    Agree links milestones s ∧
    ∀ (r : Sent) (cardId : Bytes) (body : Except Bytes Json) (p : Plan),
      Whole links milestones s r → r.request = .resource true cardId body →
      plan links milestones r.directory r.truncate r.now s r.request = .ok p → p.edit ≠ none →
      (handle links milestones s r).1.isError = true →
        ∃ written, handle links milestones (handle links milestones s r).2 { r with fault := none } =
          (.resource (ascii "attached") true, written) ∧ Agree links milestones written := by
  have h : Agree links milestones s := Machine.run_invariant_along (step links milestones)
    (fun _ _ _ h hl hs => by cases hs; exact h.handle hl) hstart hok hrun
  refine ⟨error_sameRows_iff, h, fun r cardId body p hwhole hr hp hedit herror => ?_⟩
  exact ⟨_, repeated_attachment hwhole hr hp hedit herror, (h.handle hwhole).done p⟩

end Requests

/-! One attachment -/

/-- Rows by project and owner. -/
abbrev Rows (R : Type) := Bytes → Bytes → List R

def setRows {R : Type} (t : Rows R) (p o : Bytes) (rows : List R) : Rows R :=
  Function.update t p (Function.update (t p) o rows)

theorem setRows_of_ne {R : Type} (t : Rows R) (rows : List R) {p o q o' : Bytes}
    (h : (q, o') ≠ (p, o)) : setRows t p o rows q o' = t q o' := by
  unfold setRows
  by_cases hq : q = p
  · subst hq
    rw [Function.update_self, Function.update_of_ne fun ho => h (congrArg (Prod.mk q) ho)]
  · rw [Function.update_of_ne hq]

/-- The link that an upsert or a deletion is for. -/
def sameLink (target : Bytes) (toType kind : Option Bytes) (link : CardLink) : Bool :=
  link.toCardId = target && toType.all (fun t => link.toType = t) &&
    kind.all (fun k => link.kind = k)

def tableRepo : LinkRepo (Rows CardLink) where
  listOutgoing t p o := t p o
  upsertLinks t p o added := setRows t p o (added.foldl
    (fun rows link =>
      (rows.filter fun row => !sameLink link.toCardId (some link.toType) (some link.kind) row) ++
        [link]) (t p o))
  deleteLink t p o target toType kind :=
    setRows t p o ((t p o).filter fun row => !sameLink target toType kind row)
  deleteLinksFrom t p o := setRows t p o []
  upsert_frame t _ _ _ _ _ h := setRows_of_ne t _ h
  deleteLink_frame t _ _ _ _ _ _ _ h := setRows_of_ne t _ h
  deleteLinksFrom_frame t _ _ _ _ h := setRows_of_ne t _ h

def milestoneTable : MilestoneRepo (Rows Milestone) where
  listForCard m p c := m p c
  replaceForCard m p c listed := setRows m p c listed
  replace_frame m _ _ _ _ _ h := setRows_of_ne m _ h

def emptyTables : State (Rows CardLink) (Rows Milestone) :=
  ⟨fun _ _ => [], fun _ _ => [], fun _ _ => [], fun _ _ => []⟩

/-- POST /cards/c1/resources. -/
def attach (fault : Option Nat) : Sent where
  request := .resource true (ascii "c1") (.ok (.obj [(ascii "project_id", .str (ascii "p1")),
    (ascii "resource_id", .str (ascii "r1"))]))
  directory :=
    { card := fun id => if id = ascii "c1" then some ⟨ascii "p1", false⟩ else none
      resource := fun id => if id = ascii "r1" then some (ascii "p1") else none }
  now := 7
  fault := fault

/-- The card's file cannot be written: the answer is an error and the row is there, and repeating
the request does not write the file. -/
theorem attachment_hidden :
    let failed := handle tableRepo milestoneTable emptyTables (attach (some 4));
    let again := handle tableRepo milestoneTable failed.2 (attach none);
    failed.1 = .threw ∧ (failed.2.links (ascii "p1") (ascii "c1")).length = 1 ∧
      again.1 = .resource (ascii "already_attached") false ∧
        again.2.linkFiles (ascii "p1") (ascii "c1") = [] := by
  decide +kernel

/-- The lookup of the card throws, and the request is repeated. -/
theorem attachment_repeated :
    ∃ s, Machine.run (step tableRepo milestoneTable) emptyTables [attach (some 0), attach none] =
        some s ∧
      (s.links (ascii "p1") (ascii "c1")).length = 1 ∧
      s.linkFiles (ascii "p1") (ascii "c1") = s.links (ascii "p1") (ascii "c1") := by
  obtain ⟨s, hrun, htest⟩ := Machine.run_of_any (step tableRepo milestoneTable) emptyTables
    [attach (some 0), attach none]
    (fun s => decide ((s.links (ascii "p1") (ascii "c1")).length = 1)) (by decide +kernel)
  have hok : Machine.Along (step tableRepo milestoneTable) (Whole tableRepo milestoneTable)
      emptyTables [attach (some 0), attach none] :=
    ⟨fun _ _ _ _ h => (by cases h), fun _ _ => ⟨fun _ _ _ _ h => (by cases h), fun _ _ => trivial⟩⟩
  have hagree := (edits_whole ⟨fun _ _ => rfl, fun _ _ => rfl⟩ hok hrun).2.1
  exact ⟨s, hrun, of_decide_eq_true htest, hagree.links _ _⟩

end Links

end HolderDaemon
