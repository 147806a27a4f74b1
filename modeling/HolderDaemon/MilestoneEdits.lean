import HolderDaemon.Json
import HolderDaemon.Machine
import HolderDaemon.RequestLane

/-!
Milestones of one card (`api/routes/MilestoneRoutes.cpp`): the POST and DELETE handlers, and
the workers that run them with each database call a step of its own.
-/

set_option autoImplicit false

open Bytes

namespace HolderDaemon

namespace Milestones

structure Milestone where
  milestoneId : Bytes
  projectId : Bytes
  cardId : Bytes
  startAt : Int
  endAt : Option Int
  allDay : Bool
  kind : Option Bytes
  description : Option Bytes
  createdAt : Int
  updatedAt : Int
  deriving DecidableEq, Repr

def parseCardMilestonePath (path : Bytes) : Option (Bytes × Option Bytes) :=
  let marker := ascii "/milestones"
  let rest := path.drop (ascii "/cards/").length
  let markerPos := rest.idxOf 47
  let suffix := rest.drop (markerPos + marker.length)
  if ¬ (ascii "/cards/").isPrefixOf path then none
  else if ¬ marker.isPrefixOf (rest.drop markerPos) then none
  else if suffix = [] then some (rest.take markerPos, none)
  else if suffix.head? ≠ some 47 ∨ suffix.length = 1 ∨ 47 ∈ suffix.drop 1 then none
  else some (rest.take markerPos, some (suffix.drop 1))

/-- `get<long long>()` of an integer. -/
def toLongLong (i : Int) : Int := if i < 2 ^ 63 then i else i - 2 ^ 64

def integerField (body : Json) (name : String) (message : String) : Except Bytes Int :=
  match body.field? (ascii name) with
  | some (.int i) => .ok (toLongLong i)
  | _ => .error (ascii message)

def nullableString (body : Json) (name : String) : Except Bytes (Option Bytes) :=
  match body.field? (ascii name) with
  | none => .ok none
  | some .null => .ok none
  | some (.str s) => .ok (if s = [] then none else some s)
  | some _ => .error (ascii name ++ ascii " must be a string or null.")

/-- The milestone that a POST body describes, checked in the handler's order. -/
def newMilestone (milestoneId projectId cardId : Bytes) (now : Int) (body : Json) :
    Except Bytes Milestone := do
  let startAt ← integerField body "start_at" "start_at must be an epoch-second integer."
  let endAt ←
    match body.field? (ascii "end_at") with
    | none => .ok none
    | some .null => .ok none
    | some _ => do
      let endAt ← integerField body "end_at" "end_at must be an epoch-second integer or null."
      if endAt < startAt then .error (ascii "end_at must not be before start_at.")
      else .ok (some endAt)
  let allDay ←
    match body.field? (ascii "all_day") with
    | none => .ok false
    | some (.bool b) => .ok b
    | some _ => .error (ascii "all_day must be a boolean.")
  let kind ← nullableString body "kind"
  let description ← nullableString body "description"
  .ok { milestoneId, projectId, cardId, startAt, endAt, allDay, kind, description,
        createdAt := now, updatedAt := now }

/-- What a request that passed its checks does to the card's list. -/
inductive Edit where
  | add (milestone : Milestone)
  | remove (milestoneId : Bytes)
  deriving DecidableEq, Repr

def Edit.apply : Edit → List Milestone → List Milestone
  | .add milestone, milestones => milestones ++ [milestone]
  | .remove milestoneId, milestones => milestones.filter fun m => m.milestoneId ≠ milestoneId

inductive Answer where
  | created (milestone : Milestone)
  | removed (milestoneId : Bytes) (removed : Bool)
  | error (status : Nat) (code message : Bytes)
  deriving DecidableEq, Repr

structure Card where
  cardId : Bytes
  projectId : Bytes

/-- A POST or DELETE up to its first read of the list; none is another route. The parsed
body and the `what()` of a parse error come from the JSON library. -/
def prepare (card : Option Card) (cardStore : Bool) (uuid : Bytes) (now : Int) (method : Method)
    (path : Bytes) (body : Except Bytes Json) : Option (Except Answer Edit) :=
  match parseCardMilestonePath path with
  | none => none
  | some (cardId, milestoneId) =>
    if cardId = [] then
      some (.error (.error 400 (ascii "bad_request") (ascii "Missing card_id.")))
    else
      match card with
      | none => some (.error (.error 404 (ascii "not_found") (ascii "Card not found.")))
      | some card =>
        match method, milestoneId with
        | .post, none =>
          if !cardStore then
            some (.error (.error 501 (ascii "not_implemented") (ascii "Card store unavailable.")))
          else
            match body >>= newMilestone uuid card.projectId cardId now with
            | .error message => some (.error (.error 400 (ascii "bad_request") message))
            | .ok milestone => some (.ok (.add milestone))
        | .delete, some milestoneId =>
          if !cardStore then
            some (.error (.error 501 (ascii "not_implemented") (ascii "Card store unavailable.")))
          else some (.ok (.remove milestoneId))
        | _, _ => none

/-! The workers -/

/-- Where a worker is in a request: before `list_for_card`, between it and
`replace_for_card`, or before `update_milestones`. -/
inductive Job where
  | idle
  | ready (ticket : Nat) (edit : Edit)
  | listed (ticket : Nat) (edit : Edit) (read : List Milestone)
  | written (edit : Edit)
  deriving DecidableEq

/-- The ticket and the edit of a request that has not yet taken effect. -/
def Job.pending : Job → Option (Nat × Edit)
  | .ready ticket edit => some (ticket, edit)
  | .listed ticket edit _ => some (ticket, edit)
  | _ => none

/-- `accepted` numbers the requests that passed their checks, and `order` is the order in
which they took effect. -/
structure Table where
  milestones : List Milestone
  jobs : Worker → Job := fun _ => .idle
  accepted : List Edit := []
  order : List (Nat × Edit) := []
  answers : List Answer := []

inductive Step where
  | take (worker : Worker) (method : Method) (path : Bytes) (body : Except Bytes Json)
      (uuid : Bytes) (now : Int)
  | list (worker : Worker)
  | replace (worker : Worker)
  | update (worker : Worker) (error : Option Bytes)

section Steps
variable (profile : ConcurrencyProfile) (card : Card)

def editAnswer : Edit → Answer
  | .add milestone => .created milestone
  | .remove milestoneId => .removed milestoneId true

def Table.take (t : Table) (worker : Worker) (prepared : Except Answer Edit) : Table :=
  match prepared with
  | .error answer => { t with answers := t.answers ++ [answer] }
  | .ok edit =>
    { t with
      jobs := Function.update t.jobs worker (.ready t.accepted.length edit)
      accepted := t.accepted ++ [edit] }

/-- A DELETE that finds nothing to remove is answered without a write. -/
def Table.list (t : Table) (worker : Worker) (ticket : Nat) (edit : Edit) : Table :=
  match edit with
  | .remove milestoneId =>
    if t.milestones.any fun m => m.milestoneId == milestoneId then
      { t with jobs := Function.update t.jobs worker (.listed ticket edit t.milestones) }
    else
      { t with
        jobs := Function.update t.jobs worker .idle
        order := t.order ++ [(ticket, edit)]
        answers := t.answers ++ [.removed milestoneId false] }
  | .add _ => { t with jobs := Function.update t.jobs worker (.listed ticket edit t.milestones) }

def Table.step (t : Table) : Step → Option Table
  | .take worker method path body uuid now =>
    if t.jobs worker = .idle ∧ profile.serves worker (classifyRequestLane method path) ∧
        (parseCardMilestonePath path).map Prod.fst = some card.cardId then
      (prepare (some card) true uuid now method path body).map (t.take worker)
    else none
  | .list worker =>
    match t.jobs worker with
    | .ready ticket edit => some (t.list worker ticket edit)
    | _ => none
  | .replace worker =>
    match t.jobs worker with
    | .listed ticket edit read =>
      some { t with
        milestones := edit.apply read
        jobs := Function.update t.jobs worker (.written edit)
        order := t.order ++ [(ticket, edit)] }
    | _ => none
  | .update worker error =>
    match t.jobs worker with
    | .written edit =>
      let answer := match error with
        | none => editAnswer edit
        | some message => .error 400 (ascii "bad_request") message
      some { t with
        jobs := Function.update t.jobs worker .idle
        answers := t.answers ++ [answer] }
    | _ => none

/-- What a request writes back, it has read from the table as it still is. -/
def Unchanged (t : Table) : Step → Prop
  | .replace worker => ∀ ticket edit read, t.jobs worker = .listed ticket edit read →
      t.milestones = read
  | _ => True

variable {profile card}

/-! Sequential order -/

def replay (milestones : List Milestone) (edits : List Edit) : List Milestone :=
  edits.foldl (fun l e => e.apply l) milestones

theorem mem_replay {m : Milestone} {milestones : List Milestone} {edits : List Edit}
    (hm : m ∈ milestones) (h : ∀ e ∈ edits, e ≠ .remove m.milestoneId) :
    m ∈ replay milestones edits := by
  induction edits generalizing milestones with
  | nil => exact hm
  | cons e edits ih =>
    apply ih ?_ fun e' he' => h e' (List.mem_cons_of_mem e he')
    have he := h e List.mem_cons_self
    cases e with
    | add milestone => exact List.mem_append_left _ hm
    | remove milestoneId =>
      have hne : m.milestoneId ≠ milestoneId := fun hid => he (by rw [hid])
      simp [Edit.apply, hm, hne]

theorem not_mem_replay {milestoneId : Bytes} {milestones : List Milestone} {edits : List Edit}
    (hm : ∀ m ∈ milestones, m.milestoneId ≠ milestoneId)
    (h : ∀ m, .add m ∈ edits → m.milestoneId ≠ milestoneId) :
    ∀ m ∈ replay milestones edits, m.milestoneId ≠ milestoneId := by
  induction edits generalizing milestones with
  | nil => exact hm
  | cons e edits ih =>
    apply ih ?_ fun m hadd => h m (List.mem_cons_of_mem e hadd)
    intro m hmem
    cases e with
    | add milestone =>
      rcases List.mem_append.mp hmem with hmem | hmem
      · exact hm m hmem
      · rw [List.mem_singleton.mp hmem]
        exact h milestone List.mem_cons_self
    | remove other => exact hm m (List.mem_of_mem_filter hmem)

theorem replay_append (milestones : List Milestone) (edits more : List Edit) :
    replay milestones (edits ++ more) = replay (replay milestones edits) more :=
  List.foldl_append

/-- Every accepted request has taken effect once, or is held by one worker. -/
structure Held (accepted : List Edit) (order : List (Nat × Edit))
    (pending : Worker → Option (Nat × Edit)) : Prop where
  once : (order.map Prod.fst).Nodup
  sound : ∀ n e, (n, e) ∈ order → accepted[n]? = some e
  held : ∀ w n e, pending w = some (n, e) → accepted[n]? = some e ∧ n ∉ order.map Prod.fst
  apart : ∀ w w' n e e', pending w = some (n, e) → pending w' = some (n, e') → w = w'
  complete : ∀ n e, accepted[n]? = some e → (n, e) ∈ order ∨ ∃ w, pending w = some (n, e)

theorem held_nil : Held [] [] fun _ => none :=
  ⟨List.nodup_nil, by simp, by simp, by simp, by simp⟩

theorem Held.accept {accepted : List Edit} {order : List (Nat × Edit)}
    {pending : Worker → Option (Nat × Edit)} (h : Held accepted order pending) {worker : Worker}
    (hidle : pending worker = none) (e : Edit) :
    Held (accepted ++ [e]) order
      (Function.update pending worker (some (accepted.length, e))) := by
  have hold : ∀ (n : Nat) e', accepted[n]? = some e' → (accepted ++ [e])[n]? = some e' := by
    intro n e' hn
    rw [List.getElem?_append_left (List.getElem?_eq_some_iff.mp hn).1, hn]
  have hfresh : ∀ (n : Nat) e', accepted[n]? = some e' → n ≠ accepted.length := by
    intro n e' hn
    have hlt := (List.getElem?_eq_some_iff.mp hn).1
    omega
  refine ⟨h.once, fun n e' hn => hold n e' (h.sound n e' hn), ?_, ?_, ?_⟩
  · intro w n e' hw
    by_cases hk : w = worker
    · subst hk
      rw [Function.update_self, Option.some.injEq, Prod.mk.injEq] at hw
      obtain ⟨rfl, rfl⟩ := hw
      refine ⟨by simp, fun hmem => ?_⟩
      obtain ⟨⟨n, e'⟩, hp, hn⟩ := List.mem_map.mp hmem
      exact hfresh n e' (h.sound n e' hp) hn
    · rw [Function.update_of_ne hk] at hw
      obtain ⟨hacc, hnot⟩ := h.held w n e' hw
      exact ⟨hold n e' hacc, hnot⟩
  · intro w w' n e' e'' hw hw'
    by_cases hk : w = worker <;> by_cases hk' : w' = worker
    · rw [hk, hk']
    · rw [hk, Function.update_self, Option.some.injEq, Prod.mk.injEq] at hw
      rw [Function.update_of_ne hk'] at hw'
      exact absurd hw.1.symm (hfresh n e'' (h.held w' n e'' hw').1)
    · rw [hk', Function.update_self, Option.some.injEq, Prod.mk.injEq] at hw'
      rw [Function.update_of_ne hk] at hw
      exact absurd hw'.1.symm (hfresh n e' (h.held w n e' hw).1)
    · rw [Function.update_of_ne hk] at hw
      rw [Function.update_of_ne hk'] at hw'
      exact h.apart w w' n e' e'' hw hw'
  · intro n e' hn
    by_cases hlt : n < accepted.length
    · rw [List.getElem?_append_left hlt] at hn
      rcases h.complete n e' hn with hmem | ⟨w, hw⟩
      · exact .inl hmem
      · have hk : w ≠ worker := by
          rintro rfl
          simp [hidle] at hw
        exact .inr ⟨w, by rw [Function.update_of_ne hk, hw]⟩
    · have hlen := (List.getElem?_eq_some_iff.mp hn).1
      have heq : n = accepted.length := by
        simp at hlen
        omega
      subst heq
      simp only [List.getElem?_concat_length, Option.some.injEq] at hn
      exact .inr ⟨worker, by rw [Function.update_self, hn]⟩

theorem Held.commit {accepted : List Edit} {order : List (Nat × Edit)}
    {pending : Worker → Option (Nat × Edit)} (h : Held accepted order pending) {worker : Worker}
    {n : Nat} {e : Edit} (hp : pending worker = some (n, e)) :
    Held accepted (order ++ [(n, e)]) (Function.update pending worker none) := by
  obtain ⟨hacc, hnot⟩ := h.held worker n e hp
  have hkeep : ∀ w k e', Function.update pending worker none w = some (k, e') →
      w ≠ worker ∧ pending w = some (k, e') := by
    intro w k e' hw
    by_cases hk : w = worker
    · rw [hk, Function.update_self] at hw
      cases hw
    · rw [Function.update_of_ne hk] at hw
      exact ⟨hk, hw⟩
  refine ⟨?_, ?_, ?_, ?_, ?_⟩
  · rw [List.map_append, List.nodup_append]
    refine ⟨h.once, by simp, ?_⟩
    intro a ha b hb hab
    simp only [List.map_cons, List.map_nil, List.mem_singleton] at hb
    exact hnot (hb ▸ hab ▸ ha)
  · intro k e' hk
    rcases List.mem_append.mp hk with hk | hk
    · exact h.sound k e' hk
    · simp only [List.mem_singleton, Prod.mk.injEq] at hk
      rw [hk.1, hk.2, hacc]
  · intro w k e' hw
    obtain ⟨hne, hw⟩ := hkeep w k e' hw
    obtain ⟨hacc', hnot'⟩ := h.held w k e' hw
    refine ⟨hacc', fun hmem => ?_⟩
    rw [List.map_append, List.mem_append] at hmem
    rcases hmem with hmem | hmem
    · exact hnot' hmem
    · simp only [List.map_cons, List.map_nil, List.mem_singleton] at hmem
      subst hmem
      exact hne (h.apart w worker k e' e hw hp)
  · intro w w' k e' e'' hw hw'
    exact h.apart w w' k e' e'' (hkeep w k e' hw).2 (hkeep w' k e'' hw').2
  · intro k e' hk
    rcases h.complete k e' hk with hmem | ⟨w, hw⟩
    · exact .inl (List.mem_append_left _ hmem)
    · by_cases hne : w = worker
      · rw [hne, hp, Option.some.injEq] at hw
        exact .inl (by simp [hw])
      · exact .inr ⟨w, by rw [Function.update_of_ne hne, hw]⟩

theorem pending_update (jobs : Worker → Job) (worker : Worker) (job : Job) :
    (fun w => (Function.update jobs worker job w).pending) =
      Function.update (fun w => (jobs w).pending) worker job.pending := by
  funext w
  by_cases h : w = worker
  · subst h
    simp
  · simp [h]

/-- What holds of the table at every moment of a run that starts with these milestones. -/
structure Inv (start : List Milestone) (t : Table) : Prop where
  effect : t.milestones = replay start (t.order.map Prod.snd)
  held : Held t.accepted t.order fun w => (t.jobs w).pending
  written : ∀ w e, t.jobs w = .written e → e ∈ t.order.map Prod.snd
  created : ∀ m, .created m ∈ t.answers → .add m ∈ t.order.map Prod.snd
  removed : ∀ id, .removed id true ∈ t.answers → .remove id ∈ t.order.map Prod.snd

theorem inv_start (start : List Milestone) : Inv start { milestones := start } :=
  ⟨rfl, held_nil, by simp, by simp, by simp⟩

/-- A job that replaces the job of one worker, and is not a written one. -/
theorem written_update {jobs : Worker → Job} {worker : Worker} {job : Job} {edits : List Edit}
    (h : ∀ w e, jobs w = .written e → e ∈ edits) (hjob : ∀ e, job = .written e → e ∈ edits) :
    ∀ w e, Function.update jobs worker job w = .written e → e ∈ edits := by
  intro w e hw
  by_cases hk : w = worker
  · rw [hk, Function.update_self] at hw
    exact hjob e hw
  · rw [Function.update_of_ne hk] at hw
    exact h w e hw

theorem Inv.take {start : List Milestone} {t : Table} (h : Inv start t) {worker : Worker}
    (hidle : t.jobs worker = .idle) {prepared : Except Answer Edit}
    (hprep : ∀ a, prepared = .error a → ∃ status code message, a = .error status code message) :
    Inv start (t.take worker prepared) := by
  cases prepared with
  | error answer =>
    obtain ⟨status, code, message, rfl⟩ := hprep answer rfl
    exact ⟨h.effect, h.held, h.written, fun m hm => h.created m (by simpa [Table.take] using hm),
      fun id hid => h.removed id (by simpa [Table.take] using hid)⟩
  | ok edit =>
    have hnone : Job.pending (t.jobs worker) = none := by simp [hidle, Job.pending]
    have hheld := h.held.accept hnone edit
    refine ⟨h.effect, ?_, written_update h.written (by simp), h.created, h.removed⟩
    simp only [Table.take, pending_update]
    exact hheld

theorem Inv.list {start : List Milestone} {t : Table} (h : Inv start t) {worker : Worker}
    {ticket : Nat} {edit : Edit} (hjob : t.jobs worker = .ready ticket edit) :
    Inv start (t.list worker ticket edit) := by
  have hpending : (t.jobs worker).pending = some (ticket, edit) := by simp [hjob, Job.pending]
  have hkeep : Inv start { t with
      jobs := Function.update t.jobs worker (.listed ticket edit t.milestones) } := by
    refine ⟨h.effect, ?_, written_update h.written (by simp), h.created, h.removed⟩
    simp only [pending_update]
    rw [show (Job.listed ticket edit t.milestones).pending = (t.jobs worker).pending from
      hpending.symm, Function.update_eq_self]
    exact h.held
  cases edit with
  | add milestone => exact hkeep
  | remove milestoneId =>
    simp only [Table.list]
    split
    · exact hkeep
    · rename_i hnone
      have hcommit := h.held.commit hpending
      have hsame : (Edit.remove milestoneId).apply t.milestones = t.milestones := by
        simp only [Edit.apply, List.filter_eq_self]
        intro m hm
        simp only [List.any_eq_true, beq_iff_eq, not_exists, not_and] at hnone
        simpa using hnone m hm
      refine ⟨?_, ?_, written_update ?_ (by simp), ?_, ?_⟩
      · rw [List.map_append, replay_append, ← h.effect]
        exact hsame.symm
      · simp only [pending_update]
        exact hcommit
      · intro w e hw
        rw [List.map_append]
        exact List.mem_append_left _ (h.written w e hw)
      · intro m hm
        rw [List.map_append]
        exact List.mem_append_left _ (h.created m (by simpa using hm))
      · intro id hid
        rw [List.map_append]
        exact List.mem_append_left _ (h.removed id (by simpa using hid))

theorem Inv.replace {start : List Milestone} {t : Table} (h : Inv start t) {worker : Worker}
    {ticket : Nat} {edit : Edit} {read : List Milestone}
    (hjob : t.jobs worker = .listed ticket edit read) (hread : t.milestones = read) :
    Inv start { t with
      milestones := edit.apply read
      jobs := Function.update t.jobs worker (.written edit)
      order := t.order ++ [(ticket, edit)] } := by
  have hcommit := h.held.commit (show (t.jobs worker).pending = some (ticket, edit) by
    simp [hjob, Job.pending])
  have hgrow : ∀ e, e ∈ t.order.map Prod.snd →
      e ∈ (t.order ++ [(ticket, edit)]).map Prod.snd := by
    intro e he
    rw [List.map_append]
    exact List.mem_append_left _ he
  refine ⟨?_, ?_, written_update ?_ ?_, ?_, ?_⟩
  · rw [List.map_append, replay_append, ← h.effect, hread]
    rfl
  · simp only [pending_update]
    exact hcommit
  · exact fun w e hw => hgrow e (h.written w e hw)
  · intro e he
    cases he
    simp
  · exact fun m hm => hgrow _ (h.created m hm)
  · exact fun id hid => hgrow _ (h.removed id hid)

theorem Inv.update {start : List Milestone} {t : Table} (h : Inv start t) {worker : Worker}
    {edit : Edit} (hjob : t.jobs worker = .written edit) {answer : Answer}
    (hcreated : ∀ m, answer = .created m → edit = .add m)
    (hremoved : ∀ id, answer = .removed id true → edit = .remove id) :
    Inv start { t with
      jobs := Function.update t.jobs worker .idle
      answers := t.answers ++ [answer] } := by
  have hmem := h.written worker edit hjob
  refine ⟨h.effect, ?_, written_update h.written (by simp), ?_, ?_⟩
  · simp only [pending_update]
    rw [show Job.idle.pending = (t.jobs worker).pending by simp [hjob, Job.pending],
      Function.update_eq_self]
    exact h.held
  · intro m hm
    rcases List.mem_append.mp hm with hm | hm
    · exact h.created m hm
    · exact hcreated m (List.mem_singleton.mp hm).symm ▸ hmem
  · intro id hid
    rcases List.mem_append.mp hid with hid | hid
    · exact h.removed id hid
    · exact hremoved id (List.mem_singleton.mp hid).symm ▸ hmem

theorem prepare_error {card : Option Card} {cardStore : Bool} {uuid : Bytes} {now : Int}
    {method : Method} {path : Bytes} {body : Except Bytes Json} {answer : Answer}
    (h : prepare card cardStore uuid now method path body = some (.error answer)) :
    ∃ status code message, answer = .error status code message := by
  unfold prepare at h
  repeat' split at h
  all_goals simp_all
  all_goals exact ⟨_, _, _, h.symm⟩

theorem inv_step {start : List Milestone} (t : Table) (s : Step) (u : Table) (h : Inv start t)
    (hok : Unchanged t s) (hstep : t.step profile card s = some u) : Inv start u := by
  cases s with
  | take worker method path body uuid now =>
    simp only [Table.step] at hstep
    split at hstep
    · rename_i hready
      obtain ⟨prepared, hprep, rfl⟩ := Option.map_eq_some_iff.mp hstep
      exact h.take hready.1 fun a ha => prepare_error (ha ▸ hprep)
    · cases hstep
  | list worker =>
    simp only [Table.step] at hstep
    split at hstep
    · rename_i ticket edit hjob
      cases hstep
      exact h.list hjob
    · cases hstep
  | replace worker =>
    simp only [Table.step] at hstep
    split at hstep
    · rename_i ticket edit read hjob
      cases hstep
      exact h.replace hjob (hok ticket edit read hjob)
    · cases hstep
  | update worker error =>
    simp only [Table.step] at hstep
    split at hstep
    · rename_i edit hjob
      cases hstep
      refine h.update hjob ?_ ?_
      · intro m hm
        cases error <;> cases edit <;> simp_all [editAnswer]
      · intro id hid
        cases error <;> cases edit <;> simp_all [editAnswer]
    · cases hstep

/-- Where no request writes back a list that has changed since it read it, the requests have
taken effect one after the other, each once. -/
theorem edits_sequential (profile : ConcurrencyProfile) (card : Card) (start : List Milestone)
    (steps : List Step) (t : Table)
    (hrun : Machine.run (Table.step profile card) { milestones := start } steps = some t)
    (hok : Machine.Along (Table.step profile card) Unchanged { milestones := start } steps) :
    t.milestones = replay start (t.order.map Prod.snd) ∧
      (t.order.map Prod.fst).Nodup ∧
      (∀ n e, (n, e) ∈ t.order → t.accepted[n]? = some e) ∧
      ((∀ w, t.jobs w = .idle) → ∀ (n : Nat) e, t.accepted[n]? = some e → (n, e) ∈ t.order) ∧
      (∀ m, .created m ∈ t.answers → ∃ before after,
        t.order.map Prod.snd = before ++ .add m :: after ∧
          ((∀ e ∈ after, e ≠ .remove m.milestoneId) → m ∈ t.milestones)) ∧
      ∀ id, .removed id true ∈ t.answers → ∃ before after,
        t.order.map Prod.snd = before ++ .remove id :: after ∧
          ((∀ m, .add m ∈ after → m.milestoneId ≠ id) →
            ∀ m ∈ t.milestones, m.milestoneId ≠ id) := by
  have h :=
    Machine.run_invariant_along (Table.step profile card) inv_step (inv_start start) hok hrun
  refine ⟨h.effect, h.held.once, h.held.sound, ?_, ?_, ?_⟩
  · intro hidle n e hn
    rcases h.held.complete n e hn with hmem | ⟨w, hw⟩
    · exact hmem
    · simp [hidle, Job.pending] at hw
  · intro m hm
    obtain ⟨before, after, horder⟩ := List.append_of_mem (h.created m hm)
    refine ⟨before, after, horder, fun hafter => ?_⟩
    rw [h.effect, horder, List.append_cons, replay_append, replay_append]
    exact mem_replay (by simp [replay, Edit.apply]) hafter
  · intro id hid
    obtain ⟨before, after, horder⟩ := List.append_of_mem (h.removed id hid)
    refine ⟨before, after, horder, fun hafter => ?_⟩
    rw [h.effect, horder, List.append_cons, replay_append, replay_append]
    exact not_mem_replay (by simp [replay, Edit.apply]) hafter

end Steps

def plainMilestone (id cardId : String) : Milestone :=
  { milestoneId := ascii id, projectId := ascii "p1", cardId := ascii cardId, startAt := 1,
    endAt := none, allDay := false, kind := none, description := none, createdAt := 7,
    updatedAt := 7 }

def plainPost (worker : Worker) (id cardId : String) : Step :=
  .take worker .post (ascii "/cards/" ++ ascii cardId ++ ascii "/milestones")
    (.ok (.obj [(ascii "start_at", .int 1)])) (ascii id) 7

/-- Two POSTs both answered 201, one milestone left: on two general workers, where the
card's id makes its paths link routes, and on any card where there are two save workers. -/
theorem concurrent_posts_lost :
    (∃ t, Machine.run (Table.step {} ⟨ascii "links-1", ascii "p1"⟩) { milestones := [] }
        [plainPost (.general 0) "a" "links-1", plainPost (.general 1) "b" "links-1",
         .list (.general 0), .list (.general 1), .replace (.general 0), .replace (.general 1),
         .update (.general 0) none, .update (.general 1) none] = some t ∧
      (decide (t.answers = [.created (plainMilestone "a" "links-1"),
          .created (plainMilestone "b" "links-1")]) &&
        decide (t.milestones = [plainMilestone "b" "links-1"])) = true) ∧
    ∃ t, Machine.run (Table.step { saveWorkers := 2 } ⟨ascii "c1", ascii "p1"⟩)
        { milestones := [] }
        [plainPost (.save 0) "a" "c1", plainPost (.save 1) "b" "c1",
         .list (.save 0), .list (.save 1), .replace (.save 0), .replace (.save 1),
         .update (.save 0) none, .update (.save 1) none] = some t ∧
      (decide (t.answers = [.created (plainMilestone "a" "c1"),
          .created (plainMilestone "b" "c1")]) &&
        decide (t.milestones = [plainMilestone "b" "c1"])) = true :=
  ⟨Machine.run_of_any _ _ _ _ (by decide +kernel), Machine.run_of_any _ _ _ _ (by decide +kernel)⟩

/-! One save worker -/

/-- The request is taken on the save lane. -/
def OnSaveLane : Step → Prop
  | .take _ method path _ _ _ => classifyRequestLane method path = .save
  | _ => True

/-- Only the first save worker is busy, and what it has read is what the table holds. -/
structure Solo (t : Table) : Prop where
  only : ∀ w, t.jobs w ≠ .idle → w = .save 0
  current : ∀ w ticket edit read, t.jobs w = .listed ticket edit read → t.milestones = read

theorem solo_update {t : Table} (h : Solo t) {worker : Worker} {job : Job} {u : Table}
    (hworker : job ≠ .idle → worker = .save 0)
    (hjobs : u.jobs = Function.update t.jobs worker job)
    (hread : ∀ ticket edit read, job = .listed ticket edit read → u.milestones = read)
    (hrest : u.milestones = t.milestones ∨ worker = .save 0) : Solo u := by
  refine ⟨fun w hw => ?_, fun w ticket edit read hw => ?_⟩
  · by_cases hk : w = worker
    · rw [hjobs, hk, Function.update_self] at hw
      exact hk ▸ hworker hw
    · rw [hjobs, Function.update_of_ne hk] at hw
      exact h.only w hw
  · by_cases hk : w = worker
    · rw [hjobs, hk, Function.update_self] at hw
      exact hread ticket edit read hw
    · rw [hjobs, Function.update_of_ne hk] at hw
      rcases hrest with hsame | hfirst
      · rw [hsame]
        exact h.current w ticket edit read hw
      · have hbusy : t.jobs w ≠ .idle := by simp [hw]
        exact absurd ((h.only w hbusy).trans hfirst.symm) hk

theorem solo_step {profile : ConcurrencyProfile} {card : Card} (hone : profile.saveWorkers ≤ 1)
    (t : Table) (s : Step) (u : Table) (h : Solo t) (hlane : OnSaveLane s)
    (hstep : t.step profile card s = some u) : Solo u := by
  cases s with
  | take worker method path body uuid now =>
    simp only [Table.step] at hstep
    split at hstep
    · rename_i hready
      obtain ⟨prepared, _, rfl⟩ := Option.map_eq_some_iff.mp hstep
      have hfirst : worker = .save 0 := by
        have hserves := hready.2.1
        rw [show classifyRequestLane method path = .save from hlane] at hserves
        cases worker with
        | save i =>
          simp only [ConcurrencyProfile.serves, decide_eq_true_eq] at hserves
          congr
          omega
        | general i => cases hserves
      cases prepared with
      | error answer => exact ⟨h.only, h.current⟩
      | ok edit => exact solo_update h (fun _ => hfirst) rfl (by simp) (.inr hfirst)
    · cases hstep
  | list worker =>
    simp only [Table.step] at hstep
    split at hstep
    · rename_i ticket edit hjob
      cases hstep
      have hfirst := h.only worker (by simp [hjob])
      have hlisted : Solo { t with
          jobs := Function.update t.jobs worker (.listed ticket edit t.milestones) } := by
        refine solo_update h (fun _ => hfirst) rfl ?_ (.inr hfirst)
        intro ticket' edit' read hread
        cases hread
        rfl
      cases edit with
      | add milestone => exact hlisted
      | remove milestoneId =>
        simp only [Table.list]
        split
        · exact hlisted
        · exact solo_update h (by simp) rfl (by simp) (.inr hfirst)
    · cases hstep
  | replace worker =>
    simp only [Table.step] at hstep
    split at hstep
    · rename_i ticket edit read hjob
      cases hstep
      have hfirst := h.only worker (by simp [hjob])
      exact solo_update h (fun _ => hfirst) rfl (by simp) (.inr hfirst)
    · cases hstep
  | update worker error =>
    simp only [Table.step] at hstep
    split at hstep
    · rename_i edit hjob
      cases hstep
      exact solo_update h (by simp) rfl (by simp) (.inl rfl)
    · cases hstep

/-- With one save worker, requests that are all on the save lane never overwrite a list
that has changed. -/
theorem single_save_worker_unchanged {profile : ConcurrencyProfile} {card : Card}
    (hone : profile.saveWorkers ≤ 1) (start : List Milestone) {steps : List Step}
    (hlane : ∀ s ∈ steps, OnSaveLane s) :
    Machine.Along (Table.step profile card) Unchanged { milestones := start } steps := by
  refine Machine.along_of_invariant _ ?_ (solo_step hone) ⟨by simp, by simp⟩ hlane
  intro t s h _
  cases s with
  | replace worker => exact fun ticket edit read hjob => h.current worker ticket edit read hjob
  | _ => trivial

/-- Two POSTs through the one save worker. -/
theorem edits_sequential_save_lane :
    let steps := [plainPost (.save 0) "a" "c1", .list (.save 0), .replace (.save 0),
      .update (.save 0) none, plainPost (.save 0) "b" "c1", .list (.save 0), .replace (.save 0)]
    ∃ t, Machine.run (Table.step {} ⟨ascii "c1", ascii "p1"⟩) { milestones := [] } steps = some t ∧
      t.milestones = replay [] (t.order.map Prod.snd) := by
  intro steps
  obtain ⟨t, hrun, _⟩ := Machine.run_of_any (Table.step {} ⟨ascii "c1", ascii "p1"⟩)
    { milestones := [] } steps (fun _ => true) (by decide +kernel)
  have hpath : classifyRequestLane .post (ascii "/cards/" ++ ascii "c1" ++ ascii "/milestones") =
      .save := by decide +kernel
  have hlane : ∀ s ∈ steps, OnSaveLane s := by
    simp only [steps, plainPost, List.forall_mem_cons, OnSaveLane, hpath]
    simp
  exact ⟨t, hrun, (edits_sequential {} _ [] steps t hrun
    (single_save_worker_unchanged (by decide) [] hlane)).1⟩

end Milestones

end HolderDaemon
