import HolderDaemon.AiRuns
import HolderDaemon.DeviceConfig

/-!
The local path of POST /ai/runs (`execute_local_post_path` in
`api/routes/ai/runs/AiRunPostRoute.cpp`) with the text that its models deliver: the loop over the
candidates, and what is stored when it is over.
-/

set_option autoImplicit false

open Bytes

namespace HolderDaemon

namespace LocalAnswers

open DeviceConfig

/-- What `stream_generate` does for a model: the chunks it hands on, its result, and the error
that it leaves. -/
structure Generation where
  chunks : List Bytes
  ok : Bool
  error : Bytes := []
  deriving Repr

structure Candidate where
  model : Bytes
  generation : Generation
  deriving Repr

/-- `ok && got_output`. -/
def Candidate.succeeds (c : Candidate) : Bool := c.generation.ok && !c.generation.chunks.isEmpty

def Candidate.text (c : Candidate) : Bytes := c.generation.chunks.flatten

inductive Event where
  | progress (model : Bytes)
  | chunk (model delta : Bytes)
  | fallback (model : Bytes) (error : Option Bytes) (isPartial : Bool)
  | done (modelRef : Bytes)
  | failed (error : Bytes)
  deriving DecidableEq, Repr

/-- The variables of the loop. -/
structure Loop where
  events : List Event := []
  assistantText : Bytes := []
  anyOutput : Bool := false
  chosenModel : Bytes := []
  deriving DecidableEq, Repr

def Loop.event (s : Loop) (event : Event) : Loop := { s with events := s.events ++ [event] }

/-- `on_chunk`. -/
def Loop.chunk (model : Bytes) (s : Loop) (delta : Bytes) : Loop :=
  { s with
    anyOutput := true
    assistantText := s.assistantText ++ delta
    events := s.events ++ [.chunk model delta] }

def Loop.generate (s : Loop) (c : Candidate) : Loop :=
  c.generation.chunks.foldl (Loop.chunk c.model) (s.event (.progress c.model))

def fallbackEvent (c : Candidate) : Event :=
  .fallback c.model (if c.generation.error = [] then none else some c.generation.error)
    (!c.generation.chunks.isEmpty && !c.generation.ok)

def tryModels (runnerId : Bytes) : Loop → List Candidate → Loop
  | s, [] => s
  | s, c :: rest =>
    if c.succeeds then
      { s.generate c with chosenModel := makeRunnerModelRef runnerId c.model }
    else tryModels runnerId ((s.generate c).event (fallbackEvent c)) rest

structure AssistantMessage where
  messageId : Bytes
  threadId : Bytes
  role : Bytes := ascii "assistant"
  source : Bytes := ascii "local"
  provider : Bytes := ascii "LocalRunner"
  model : Bytes
  content : Bytes
  createdAt : Int
  deriving DecidableEq, Repr

/-- `titleText` is what `maybe_update_thread_title` is given. -/
structure Outcome where
  events : List Event
  status : AiRuns.Status
  error : Option Bytes := none
  message : Option AssistantMessage := none
  titleText : Option Bytes := none
  modelRef : Option Bytes := none
  deriving DecidableEq, Repr

structure Input where
  runnerId : Bytes
  threadId : Option Bytes
  candidates : List Candidate
  uuid : Bytes := []
  updatedAt : Int := 0

def executeLocalPostPath (input : Input) : Outcome :=
  let s := tryModels input.runnerId {} input.candidates
  if s.chosenModel ≠ [] then
    { events := s.events ++ [.done s.chosenModel]
      status := .completed
      message := input.threadId.map fun threadId =>
        { messageId := input.uuid, threadId, model := s.chosenModel, content := s.assistantText,
          createdAt := input.updatedAt }
      titleText := some s.assistantText
      modelRef := some s.chosenModel }
  else
    { events := s.events ++ [.failed (ascii "All models failed.")]
      status := .failed
      error := some (if s.anyOutput then ascii "partial failure" else ascii "no output") }

/-! One candidate -/

theorem foldl_chunk (model : Bytes) (chunks : List Bytes) (s : Loop) :
    (chunks.foldl (Loop.chunk model) s).assistantText = s.assistantText ++ chunks.flatten ∧
      (chunks.foldl (Loop.chunk model) s).chosenModel = s.chosenModel := by
  induction chunks generalizing s with
  | nil => simp
  | cons chunk chunks ih =>
    rw [List.foldl_cons]
    constructor
    · rw [(ih _).1, List.flatten_cons, ← List.append_assoc]
      rfl
    · rw [(ih _).2]
      rfl

theorem generate_text (s : Loop) (c : Candidate) :
    (s.generate c).assistantText = s.assistantText ++ c.text := (foldl_chunk _ _ _).1

theorem generate_chosen (s : Loop) (c : Candidate) :
    (s.generate c).chosenModel = s.chosenModel := (foldl_chunk _ _ _).2

/-! The loop -/

/-- The candidate is the first of the list that succeeds. -/
def First (candidates before : List Candidate) (c : Candidate) : Prop :=
  (∃ after, candidates = before ++ c :: after) ∧ c.succeeds = true ∧
    ∀ b ∈ before, b.succeeds = false

theorem First.unique {candidates before before' : List Candidate} {c c' : Candidate}
    (h : First candidates before c) (h' : First candidates before' c') :
    before = before' ∧ c = c' := by
  obtain ⟨⟨after, rfl⟩, hc, hbefore⟩ := h
  obtain ⟨⟨after', heq⟩, hc', hbefore'⟩ := h'
  induction before generalizing before' with
  | nil =>
    cases before' with
    | nil =>
      simp only [List.nil_append, List.cons.injEq] at heq
      exact ⟨rfl, heq.1⟩
    | cons b before' =>
      simp only [List.nil_append, List.cons_append, List.cons.injEq] at heq
      have hb := hbefore' b List.mem_cons_self
      rw [← heq.1, hc] at hb
      cases hb
  | cons b before ih =>
    cases before' with
    | nil =>
      simp only [List.nil_append, List.cons_append, List.cons.injEq] at heq
      have hb := hbefore b List.mem_cons_self
      rw [heq.1, hc'] at hb
      cases hb
    | cons b' before' =>
      simp only [List.cons_append, List.cons.injEq] at heq
      obtain ⟨rfl, rfl⟩ := ih (fun x hx => hbefore x (List.mem_cons_of_mem _ hx)) heq.2
        fun x hx => hbefore' x (List.mem_cons_of_mem _ hx)
      exact ⟨by rw [heq.1], rfl⟩

theorem tryModels_cases (runnerId : Bytes) (candidates : List Candidate) (s : Loop) :
    (∃ before c, First candidates before c ∧
      (tryModels runnerId s candidates).chosenModel = makeRunnerModelRef runnerId c.model ∧
      (tryModels runnerId s candidates).assistantText =
        s.assistantText ++ (before.map Candidate.text).flatten ++ c.text) ∨
    ((∀ c ∈ candidates, c.succeeds = false) ∧
      (tryModels runnerId s candidates).chosenModel = s.chosenModel) := by
  induction candidates generalizing s with
  | nil => exact .inr ⟨nofun, rfl⟩
  | cons c rest ih =>
    rw [tryModels]
    cases hc : c.succeeds with
    | true =>
      refine .inl ⟨[], c, ⟨⟨rest, rfl⟩, hc, nofun⟩, rfl, ?_⟩
      simp [generate_text]
    | false =>
      rcases ih ((s.generate c).event (fallbackEvent c)) with
        ⟨before, d, ⟨⟨after, hafter⟩, hd, hbefore⟩, hchosen, htext⟩ | ⟨hall, hchosen⟩
      · refine .inl ⟨c :: before, d, ⟨⟨after, by rw [hafter, List.cons_append]⟩, hd, ?_⟩,
          hchosen, ?_⟩
        · intro b hb
          rcases List.mem_cons.mp hb with rfl | hb
          · exact hc
          · exact hbefore b hb
        · rw [if_neg (by simp), htext]
          simp [Loop.event, generate_text]
      · refine .inr ⟨?_, ?_⟩
        · intro b hb
          rcases List.mem_cons.mp hb with rfl | hb
          · exact hc
          · exact hall b hb
        · rw [if_neg (by simp), hchosen]
          exact generate_chosen s c

theorem makeRunnerModelRef_ne_nil (runnerId model : Bytes) :
    makeRunnerModelRef runnerId model ≠ [] := by
  simp [makeRunnerModelRef, show kSeparator ≠ [] by decide]

/-- The stored message, the title's text and the recorded model are those of the first candidate
that succeeds. -/
structure AnswersChosen (input : Input) (o : Outcome) (before : List Candidate) (c : Candidate) :
    Prop where
  first : First input.candidates before c
  modelRef : o.modelRef = some (makeRunnerModelRef input.runnerId c.model)
  title : o.titleText = some c.text
  stored : o.message.isSome = input.threadId.isSome
  message : ∀ m ∈ o.message, m.content = c.text ∧
    m.model = makeRunnerModelRef input.runnerId c.model

/-- A completed run has the chosen model's answer exactly where no model before it has delivered
any text. -/
theorem answer_of_chosen_iff (input : Input) :
    ((executeLocalPostPath input).status = .completed →
      ∃ before c, AnswersChosen input (executeLocalPostPath input) before c) ↔
    ∀ before c, First input.candidates before c → ∀ b ∈ before, b.text = [] := by
  rcases tryModels_cases input.runnerId input.candidates {} with
    ⟨before, c, hfirst, hchosen, htext⟩ | ⟨hnone, hchosen⟩
  · have hne := makeRunnerModelRef_ne_nil input.runnerId c.model
    have hexec : executeLocalPostPath input =
        { events := (tryModels input.runnerId {} input.candidates).events ++
            [.done (makeRunnerModelRef input.runnerId c.model)]
          status := .completed
          message := input.threadId.map fun threadId =>
            { messageId := input.uuid, threadId
              model := makeRunnerModelRef input.runnerId c.model
              content := (before.map Candidate.text).flatten ++ c.text
              createdAt := input.updatedAt }
          titleText := some ((before.map Candidate.text).flatten ++ c.text)
          modelRef := some (makeRunnerModelRef input.runnerId c.model) } := by
      rw [executeLocalPostPath, hchosen, htext, if_pos hne]
      rfl
    rw [hexec]
    constructor
    · intro h before' c' hfirst' b hb
      obtain ⟨rfl, rfl⟩ := hfirst.unique hfirst'
      obtain ⟨before'', c'', hanswers⟩ := h rfl
      obtain ⟨rfl, rfl⟩ := hfirst.unique hanswers.first
      have htitle : (before.map Candidate.text).flatten ++ c.text = c.text :=
        Option.some.inj hanswers.title
      have hnil : (before.map Candidate.text).flatten = [] := List.append_left_eq_self.mp htitle
      exact List.flatten_eq_nil_iff.mp hnil _ (List.mem_map_of_mem hb)
    · intro h _
      have hnil : (before.map Candidate.text).flatten = [] := by
        rw [List.flatten_eq_nil_iff]
        intro text htext
        obtain ⟨b, hb, rfl⟩ := List.mem_map.mp htext
        exact h before c hfirst b hb
      refine ⟨before, c, hfirst, rfl, by rw [hnil]; rfl, by simp, fun m hm => ?_⟩
      obtain ⟨threadId, _, rfl⟩ := Option.map_eq_some_iff.mp hm
      exact ⟨by rw [hnil]; rfl, rfl⟩
  · constructor
    · intro _ before c hfirst
      obtain ⟨⟨after, heq⟩, hc, _⟩ := hfirst
      have hno := hnone c (by simp [heq])
      rw [hc] at hno
      cases hno
    · intro _ hcompleted
      rw [executeLocalPostPath, hchosen] at hcompleted
      simp at hcompleted

/-- The first model delivers half of an answer and fails; the second one succeeds. -/
def halfAnswer : Input where
  runnerId := ascii "auto_local"
  threadId := some (ascii "t")
  candidates := [⟨ascii "a", ⟨[ascii "No, "], false, ascii "connection lost"⟩⟩,
    ⟨ascii "b", ⟨[ascii "Yes."], true, []⟩⟩]

theorem half_answer_kept :
    (executeLocalPostPath halfAnswer).status = .completed ∧
      (executeLocalPostPath halfAnswer).modelRef = some (ascii "auto_local::b") ∧
      (executeLocalPostPath halfAnswer).message.map AssistantMessage.content =
        some (ascii "No, Yes.") ∧
      ¬ ∃ before c, AnswersChosen halfAnswer (executeLocalPostPath halfAnswer) before c := by
  refine ⟨by decide, by decide, by decide, ?_⟩
  rintro ⟨before, c, h⟩
  have hfirst : First halfAnswer.candidates
      [⟨ascii "a", ⟨[ascii "No, "], false, ascii "connection lost"⟩⟩]
      ⟨ascii "b", ⟨[ascii "Yes."], true, []⟩⟩ := ⟨⟨[], rfl⟩, rfl, by decide⟩
  obtain ⟨rfl, rfl⟩ := hfirst.unique h.first
  exact absurd h.title (by decide)

end LocalAnswers

end HolderDaemon
