import HolderDaemon.ChangeFeed
import HolderDaemon.MessageCapture
import HolderDaemon.TitleTexts

/-!
The titles that the daemon gives to AI threads (`api/routes/ai/runs/AiRunPostRoute.cpp` and
`api/routes/ai/messages/AiMessageCaptureRoutes.cpp`): where they are UTF-8, and with them the
thread's manifest and the rows of the change feed.
-/

set_option autoImplicit false

open Bytes
open HolderDaemon.Runners (isSpace)

namespace HolderDaemon

namespace ThreadTitles

open AiDurability (State Thread persistEncoded)
open ChangeFeed (Content Row Query kQueries digestRow digestQuery digests snapshot)
open NudgeTitles (trimCopy stripWrappingQuotes stripLast)

/-! Titles -/

/-- The loop of `collapse_whitespace`: a blank for the blanks between two words. -/
def collapseSpaces (outEmpty inSpace : Bool) : Bytes → Bytes
  | [] => []
  | b :: input =>
    if isSpace b then
      if !outEmpty && !inSpace then 32 :: collapseSpaces false true input
      else collapseSpaces outEmpty true input
    else b :: collapseSpaces false false input

def collapseWhitespace (input : Bytes) : Bytes := trimCopy (collapseSpaces true false input)

def truncateBytes (text : Bytes) (maxBytes : Nat) : Bytes :=
  if text.length ≤ maxBytes then text else text.take maxBytes

/-- The title of `ensure_ai_run_thread`. -/
def runTitle (prompt : Bytes) : Bytes := if 80 < prompt.length then prompt.take 80 else prompt

/-- What a model has generated, before its checks. -/
def titleText (generated : Bytes) : Bytes :=
  stripLast 46 (stripWrappingQuotes (collapseWhitespace generated))

/-- The title of `generate_thread_title`, of what a model has generated. -/
def generateThreadTitle (generated : Bytes) : Option Bytes :=
  let title := titleText generated
  if title = [] ∨ (58 : UInt8) ∈ title ∨ (10 : UInt8) ∈ title then none
  else if (ascii "User").isPrefixOf title || (ascii "Assistant").isPrefixOf title ||
      (ascii "Title").isPrefixOf title then none
  else
    let title := if 60 < title.length then trimCopy (title.take 60) else title
    if title = [] then none else some title

/-- Where a title comes from. -/
inductive Source where
  | run (prompt : Bytes)
  | generated (text : Bytes)
  | capture (prompt response : Bytes)

namespace Source

def title : Source → Option Bytes
  | .run prompt => some (runTitle prompt)
  | .generated text => generateThreadTitle text
  | .capture prompt response => some (Capture.title prompt response)

def texts : Source → List Bytes
  | .run prompt => [prompt]
  | .generated text => [text]
  | .capture prompt response => [prompt, response]

/-- The text that is cut. -/
def uncut : Source → Bytes
  | .run prompt => prompt
  | .generated text => titleText text
  | .capture prompt response => if prompt = [] then response else prompt

def limit : Source → Nat
  | .run _ => 80
  | .generated _ => 60
  | .capture _ _ => 80

/-- The cut is not inside a character. -/
def Whole (source : Source) : Prop :=
  source.limit < source.uncut.length → Boundary source.uncut source.limit

end Source

/-! Cuts -/

theorem thinned_collapseSpaces (outEmpty inSpace : Bool) (s : Bytes) :
    Thinned s (collapseSpaces outEmpty inSpace s) := by
  induction s generalizing outEmpty inSpace with
  | nil => exact .nil
  | cons b s ih =>
    rw [collapseSpaces]
    split
    · rename_i hspace
      split
      · exact .swap (NudgeTitles.isSpace_lt hspace) (by decide) (ih false true)
      · exact .skip (NudgeTitles.isSpace_lt hspace) (ih outEmpty true)
    · exact .keep b (ih false false)

theorem thinned_titleText (s : Bytes) : Thinned s (titleText s) := by
  have dot_lt : (46 : UInt8).toNat < 0x80 := by decide
  rw [titleText, collapseWhitespace]
  exact (((thinned_collapseSpaces true false s).trans (NudgeTitles.thinned_trimCopy _)).trans
    (NudgeTitles.thinned_stripWrappingQuotes _)).trans (NudgeTitles.thinned_stripLast dot_lt _)

theorem validUtf8_uncut {source : Source} (h : ∀ text ∈ source.texts, validUtf8 text = true) :
    validUtf8 source.uncut = true := by
  cases source with
  | run prompt => exact h prompt (.head _)
  | generated text => exact (thinned_titleText text).validUtf8 (h text (.head _))
  | capture prompt response =>
    rw [Source.uncut]
    split
    · exact h response (.tail _ (.head _))
    · exact h prompt (.head _)

/-- What `substr` leaves of a text that is too long, with or without the blanks at its ends. -/
theorem validUtf8_cut_iff {uncut title : Bytes} {limit : Nat} (h : validUtf8 uncut = true)
    (hlong : limit < uncut.length → Thinned (uncut.take limit) title)
    (hshort : ¬ limit < uncut.length → validUtf8 title = true) :
    validUtf8 title = true ↔ (limit < uncut.length → Boundary uncut limit) := by
  by_cases hlength : limit < uncut.length
  · rw [(hlong hlength).validUtf8_take_iff h]
    exact ⟨fun hcut _ => hcut, fun hcut => hcut hlength⟩
  · exact ⟨fun _ h => absurd h hlength, fun _ => hshort hlength⟩

theorem validUtf8_runTitle_iff {prompt : Bytes} (h : validUtf8 prompt = true) :
    validUtf8 (runTitle prompt) = true ↔ (80 < prompt.length → Boundary prompt 80) := by
  refine validUtf8_cut_iff h (fun hlong => ?_) fun hshort => ?_
  · rw [runTitle, if_pos hlong]
    exact .refl _
  · rwa [runTitle, if_neg hshort]

theorem validUtf8_captureTitle_iff {prompt response : Bytes}
    (h : validUtf8 (if prompt = [] then response else prompt) = true) :
    validUtf8 (Capture.title prompt response) = true ↔
      (80 < (if prompt = [] then response else prompt).length →
        Boundary (if prompt = [] then response else prompt) 80) := by
  unfold Capture.title
  dsimp only
  generalize (if prompt = [] then response else prompt) = text at h ⊢
  have hcaptured : validUtf8 (ascii "Captured response") = true := by decide
  refine validUtf8_cut_iff h (fun hlong => ?_) fun hshort => ?_
  · have hne : text.take 80 ≠ [] := by
      intro hnil
      have hlength := congrArg List.length hnil
      rw [List.length_take, List.length_nil] at hlength
      omega
    rw [if_neg hne]
    exact .refl _
  · rw [List.take_of_length_le (Nat.le_of_not_lt hshort)]
    split
    · exact hcaptured
    · exact h

theorem generateThreadTitle_some {generated title : Bytes}
    (h : generateThreadTitle generated = some title) :
    title = if 60 < (titleText generated).length then trimCopy ((titleText generated).take 60)
      else titleText generated := by
  unfold generateThreadTitle at h
  dsimp only at h
  generalize titleText generated = text at h ⊢
  generalize (if 60 < text.length then trimCopy (text.take 60) else text) = cut at h ⊢
  split at h
  · cases h
  · split at h
    · cases h
    · split at h
      · cases h
      · exact (Option.some.inj h).symm

theorem validUtf8_generated_iff {generated title : Bytes} (h : validUtf8 generated = true)
    (htitle : generateThreadTitle generated = some title) :
    validUtf8 title = true ↔
      (60 < (titleText generated).length → Boundary (titleText generated) 60) := by
  have htext := (thinned_titleText generated).validUtf8 h
  rw [generateThreadTitle_some htitle]
  generalize titleText generated = text at htext ⊢
  refine validUtf8_cut_iff htext (fun hlong => ?_) fun hshort => ?_
  · rw [if_pos hlong]
    exact NudgeTitles.thinned_trimCopy _
  · rwa [if_neg hshort]

theorem validUtf8_title_iff {source : Source} (h : ∀ text ∈ source.texts, validUtf8 text = true)
    {title : Bytes} (htitle : source.title = some title) :
    validUtf8 title = true ↔ source.Whole := by
  cases source with
  | run prompt =>
    rw [← Option.some.inj htitle]
    exact validUtf8_runTitle_iff (h prompt (.head _))
  | generated text => exact validUtf8_generated_iff (h text (.head _)) htitle
  | capture prompt response =>
    rw [← Option.some.inj htitle]
    exact validUtf8_captureTitle_iff (validUtf8_uncut h)

/-! Rows -/

/-- A row that the change feed can digest. -/
structure RowSound (row : Row) : Prop where
  id : row.id.getText.isOk = true
  project : row.project.getText.isOk = true
  columns : ∀ column ∈ row.columns, column.encodable = true

theorem digestRow_isOk_iff {query : Query} (hsql : validUtf8 query.sql = true)
    (all : List (ChangeFeed.Key × Bytes)) (row : Row) :
    (digestRow query all row).isOk = true ↔ RowSound row := by
  have hcolumns : (Json.arr (.str query.sql :: row.columns)).encodable =
      row.columns.all Json.encodable := by
    rw [Json.encodable, Json.encodableItems_eq, List.all_cons, Json.encodable, hsql, Bool.true_and]
  have hencode : ∀ id project : Bytes, ((Json.arr (.str query.sql :: row.columns)).dump >>=
      fun encoded => Except.ok (Assoc.set (query.kind, id, project)
        ((all.lookup (query.kind, id, project)).getD [] ++ encoded) all) :
        Except Json.Error (List (ChangeFeed.Key × Bytes))).isOk = row.columns.all Json.encodable := by
    intro id project
    rw [Json.isOk_bind _ _ true (fun _ _ => rfl), Json.dump_isOk, hcolumns, Bool.and_true]
  rw [digestRow, Json.isOk_bind _ _ (row.project.getText.isOk && row.columns.all Json.encodable)
    fun id _ => Json.isOk_bind _ _ (row.columns.all Json.encodable) fun project _ =>
      hencode id project]
  rw [Bool.and_eq_true, Bool.and_eq_true, List.all_eq_true]
  exact ⟨fun h => ⟨h.1, h.2.1, h.2.2⟩, fun h => ⟨h.id, h.project, h.columns⟩⟩

theorem foldlM_isOk_iff {α β : Type} {f : β → α → Except Json.Error β} {good : α → Prop}
    {xs : List α} (h : ∀ x ∈ xs, ∀ acc, (f acc x).isOk = true ↔ good x) (acc : β) :
    (xs.foldlM f acc).isOk = true ↔ ∀ x ∈ xs, good x := by
  induction xs generalizing acc with
  | nil => exact ⟨fun _ _ hx => absurd hx List.not_mem_nil, fun _ => rfl⟩
  | cons x xs ih =>
    have hhere := h x List.mem_cons_self acc
    have hrest := ih fun y hy => h y (.tail x hy)
    rw [List.foldlM_cons, List.forall_mem_cons, ← hhere]
    cases hx : f acc x with
    | error e =>
      refine iff_of_false (fun hok => ?_) fun hok => ?_
      · cases hok
      · cases hok.1
    | ok next =>
      exact (hrest next).trans ⟨fun hall => ⟨rfl, hall⟩, fun hall => hall.2⟩

/-- The rows that a snapshot goes through. -/
def Digested (content : Content) (row : Row) : Prop :=
  ∃ query ∈ kQueries, query.optionalTable.all content.hasTable = true ∧
    row ∈ content.rows query.sql

/-- A snapshot is as good as its worst row. -/
theorem snapshot_isOk_iff (sha256 : Bytes → Bytes) (content : Content) :
    (snapshot sha256 content).isOk = true ↔ ∀ row, Digested content row → RowSound row := by
  have hsql : ∀ query ∈ kQueries, validUtf8 query.sql = true := by decide +kernel
  have hquery : ∀ query ∈ kQueries, ∀ all, (digestQuery content all query).isOk = true ↔
      (query.optionalTable.all content.hasTable = true →
        ∀ row ∈ content.rows query.sql, RowSound row) := by
    intro query hmem all
    unfold digestQuery
    split
    · rename_i htable
      rw [foldlM_isOk_iff fun row _ acc => digestRow_isOk_iff (hsql query hmem) acc row]
      exact ⟨fun hall _ => hall, fun hall => hall htable⟩
    · rename_i htable
      exact ⟨fun _ htrue => absurd htrue htable, fun _ => rfl⟩
  rw [snapshot, Json.isOk_bind _ _ true (fun _ _ => rfl), Bool.and_true, digests,
    foldlM_isOk_iff hquery]
  constructor
  · rintro hall row ⟨query, hmem, htable, hrow⟩
    exact hall query hmem htable row hrow
  · exact fun hall query hmem htable row hrow => hall row ⟨query, hmem, htable, hrow⟩

/-- The query over the table of threads. -/
def threadQuery : Query :=
  ChangeFeed.query "thread" "SELECT thread_id, project_id, * FROM ai_threads ORDER BY thread_id"

/-- A title that is written is a text where its cut is between two characters. Only then is the
thread's manifest encoded, and is a snapshot taken that has the title in a row and is sound
elsewhere. -/
theorem title_storable {source : Source} (h : ∀ text ∈ source.texts, validUtf8 text = true)
    {title : Bytes} (htitle : source.title = some title) :
    (validUtf8 title = true ↔ source.Whole) ∧
    (∀ (t : State) (thread : Thread), thread.title.val = title → thread.projectId ∈ t.projectIds →
      validUtf8 thread.threadId.val = true → validUtf8 thread.projectId.val = true →
      (∀ card ∈ thread.cardId, validUtf8 card.val = true) →
      ((persistEncoded t thread).isSome = true ↔ source.Whole)) ∧
    ∀ (sha256 : Bytes → Bytes) (content : Content),
      (∃ row ∈ content.rows threadQuery.sql, .str title ∈ row.columns) →
      (∀ row, Digested content row → row.id.getText.isOk = true ∧ row.project.getText.isOk = true ∧
        ∀ column ∈ row.columns, column = .str title ∨ column.encodable = true) →
      ((snapshot sha256 content).isOk = true ↔ source.Whole) := by
  have hiff := validUtf8_title_iff h htitle
  refine ⟨hiff, fun t thread hsame hproject hid hprojectId hcard => ?_,
    fun sha256 content hrow hothers => ?_⟩
  · have hencodes : thread.encodes = true ↔ validUtf8 title = true := by
      have hcards : (thread.cardId.all fun card => validUtf8 card.val) = true := by
        cases hid : thread.cardId with
        | none => rfl
        | some card => exact hcard card hid
      rw [Thread.encodes, hid, hprojectId, hcards, hsame, Bool.true_and, Bool.true_and,
        Bool.and_true]
    have hpersist : (t.persistAiThread thread).isSome = true := by
      rw [State.persistAiThread, if_pos hproject]
      rfl
    rw [← hiff, ← hencodes, persistEncoded]
    split
    · rename_i hencoded
      exact iff_of_true hpersist hencoded
    · rename_i hnot
      exact iff_of_false (by simp) hnot
  · rw [snapshot_isOk_iff, ← hiff]
    obtain ⟨row, hmem, hcolumn⟩ := hrow
    have hquery : threadQuery ∈ kQueries := by simp [threadQuery, kQueries]
    constructor
    · intro hall
      have hsound := hall row ⟨threadQuery, hquery, rfl, hmem⟩
      have hencodable := hsound.columns _ hcolumn
      rwa [Json.encodable] at hencodable
    · intro hvalid other hother
      obtain ⟨hid, hproject, hcolumns⟩ := hothers other hother
      refine ⟨hid, hproject, fun column hcolumn => ?_⟩
      rcases hcolumns column hcolumn with rfl | hencodable
      · rwa [Json.encodable]
      · exact hencodable

theorem title_storable_hello :
    (validUtf8 (ascii "hello") = true ↔ (Source.run (ascii "hello")).Whole) ∧
    (∀ (t : State) (thread : Thread), thread.title.val = ascii "hello" →
      thread.projectId ∈ t.projectIds →
      validUtf8 thread.threadId.val = true → validUtf8 thread.projectId.val = true →
      (∀ card ∈ thread.cardId, validUtf8 card.val = true) →
      ((persistEncoded t thread).isSome = true ↔ (Source.run (ascii "hello")).Whole)) ∧
    ∀ (sha256 : Bytes → Bytes) (content : Content),
      (∃ row ∈ content.rows threadQuery.sql, .str (ascii "hello") ∈ row.columns) →
      (∀ row, Digested content row → row.id.getText.isOk = true ∧ row.project.getText.isOk = true ∧
        ∀ column ∈ row.columns, column = .str (ascii "hello") ∨ column.encodable = true) →
      ((snapshot sha256 content).isOk = true ↔ (Source.run (ascii "hello")).Whole) :=
  @title_storable (.run (ascii "hello")) (by
    simp only [Source.texts, List.mem_singleton, forall_eq]
    decide)
    (ascii "hello") (by decide)

/-- A prompt whose byte 80 is inside a character. -/
def longPrompt : Bytes := List.replicate 79 97 ++ [0xC3, 0xA9]

def longThread : Thread where
  threadId := AiDurability.textOf "t1"
  projectId := AiDurability.textOf "p1"
  cardId := none
  title := cString (runTitle longPrompt)
  createdAt := 5
  updatedAt := 5

def longRow : Row where
  id := .str (ascii "t1")
  project := .str (ascii "p1")
  columns := [.str (ascii "t1"), .str (ascii "p1"), .null, .str longThread.title.val, .int 5, .int 5]

/-- No thread has been written before it, and no row afterwards is digested. -/
theorem title_storable_fails :
    validUtf8 longPrompt = true ∧
    (Source.run longPrompt).title = some longThread.title.val ∧
    validUtf8 longThread.title.val = false ∧
    (AiDurability.Effect.act AiDurability.onePlainProject (.create longThread)).isSome = true ∧
    (persistEncoded AiDurability.onePlainProject longThread).isSome = false ∧
    (snapshot id ⟨fun _ => true, fun sql => if sql = threadQuery.sql then [longRow] else []⟩).isOk =
      false := by
  refine ⟨by decide, by decide +kernel, by decide +kernel, by decide +kernel, by decide +kernel,
    by decide +kernel⟩

end ThreadTitles

end HolderDaemon
