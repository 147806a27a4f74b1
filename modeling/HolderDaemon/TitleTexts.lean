import HolderDaemon.NudgeTitles
import HolderDaemon.NudgeDecisions
import HolderDaemon.AiRecovery

/-!
The text of the suggested titles: where it is UTF-8, and what `evaluate_and_record` leaves behind
where it is not.
-/

set_option autoImplicit false

open Bytes
open Pieces (trim)
open HolderDaemon.Runners (isSpace)

namespace HolderDaemon

namespace NudgeTitles

open AiDurability (State NudgeCandidateInput)
open AiDurability.State (sameSubject sameBasis)

/-! Cleaning takes out bytes below 128, and then cuts -/

theorem isSpace_lt {b : UInt8} (h : isSpace b = true) : b.toNat < 0x80 := by
  simp only [isSpace, Bool.or_eq_true, Bool.and_eq_true, decide_eq_true_eq] at h
  rcases h with rfl | h
  · decide
  · omega

theorem thinned_trimCopy (s : Bytes) : Thinned s (trimCopy s) := by
  rw [trimCopy, trim]
  have hfront := thinned_dropWhile (fun _ => isSpace_lt) s
  have hback := (thinned_dropWhile (fun _ => isSpace_lt) (s.dropWhile isSpace).reverse).reverse
  rw [List.reverse_reverse] at hback
  exact hfront.trans hback

theorem thinned_drop_one {s : Bytes} {b : UInt8} (hb : b.toNat < 0x80) (h : s.head? = some b) :
    Thinned s (s.drop 1) := by
  cases s with
  | nil => exact .nil
  | cons c s =>
    rw [List.head?_cons, Option.some_inj] at h
    exact .skip (h ▸ hb) (.refl s)

theorem thinned_stripLast {last : UInt8} (hlast : last.toNat < 0x80) (s : Bytes) :
    Thinned s (stripLast last s) := by
  unfold stripLast
  split
  · exact (thinned_dropLast hlast ‹_›).trans (thinned_trimCopy _)
  · exact .refl s

theorem thinned_stripHash (s : Bytes) : Thinned s (stripHash s) := by
  unfold stripHash
  split
  · have hash_lt : (35 : UInt8).toNat < 0x80 := by decide
    exact (thinned_drop_one hash_lt ‹_›).trans (thinned_trimCopy _)
  · exact .refl s

theorem thinned_stripWrappingQuotes (s : Bytes) : Thinned s (stripWrappingQuotes s) := by
  unfold stripWrappingQuotes
  dsimp only
  split
  · rename_i hquotes
    obtain ⟨hlength, hquotes⟩ := hquotes
    obtain ⟨quote, hquote, hhead, hlast⟩ : ∃ quote : UInt8, quote.toNat < 0x80 ∧
        (trimCopy s).head? = some quote ∧ (trimCopy s).getLast? = some quote := by
      rcases hquotes with ⟨hhead, hlast⟩ | ⟨hhead, hlast⟩
      · exact ⟨34, by decide, hhead, hlast⟩
      · exact ⟨39, by decide, hhead, hlast⟩
    refine ((thinned_trimCopy s).trans (thinned_drop_one hquote hhead)).trans
      ((thinned_dropLast hquote ?_).trans (thinned_trimCopy _))
    rw [List.getLast?_drop, if_neg (by omega), hlast]
  · exact thinned_trimCopy s

theorem thinned_stripMarks (n : Nat) (s : Bytes) : Thinned s (stripMarks n s) := by
  induction n generalizing s with
  | zero => exact .refl s
  | succ n ih =>
    cases s with
    | nil => exact .nil
    | cons b rest =>
      rw [stripMarks]
      split
      · rename_i hb
        have hsmall : b.toNat < 0x80 := by rcases hb with rfl | rfl <;> decide
        exact .skip hsmall ((thinned_trimCopy rest).trans (ih _))
      · exact .refl _

theorem thinned_stripListMarker (s : Bytes) : Thinned s (stripListMarker s) := by
  unfold stripListMarker
  dsimp only
  have hmarks := (thinned_trimCopy s).trans (thinned_stripMarks (trimCopy s).length (trimCopy s))
  generalize stripMarks (trimCopy s).length (trimCopy s) = value at hmarks ⊢
  have hdigits : Thinned value (value.dropWhile isDigit) :=
    thinned_dropWhile (fun b hb => by simp only [isDigit] at hb; grind) value
  split
  · exact hmarks
  · rename_i b rest hrest
    split
    · rename_i hb
      have hsmall : b.toNat < 0x80 := by rcases hb.2 with rfl | rfl <;> decide
      rw [hrest] at hdigits
      exact (hmarks.trans hdigits).trans (.skip hsmall (thinned_trimCopy rest))
    · exact hmarks

theorem thinned_erase {c : UInt8} (hc : c.toNat < 0x80) (s : Bytes) :
    Thinned s (s.filter fun b => b ≠ c) :=
  thinned_filter (fun b hb => by rw [of_not_not (of_decide_eq_false hb)]; exact hc) s

theorem thinned_uncutTitle (s : Bytes) : Thinned s (uncutTitle s) := by
  unfold uncutTitle
  dsimp only
  have comma_lt : (44 : UInt8).toNat < 0x80 := by decide
  have grave_lt : (96 : UInt8).toNat < 0x80 := by decide
  have star_lt : (42 : UInt8).toNat < 0x80 := by decide
  have dot_lt : (46 : UInt8).toNat < 0x80 := by decide
  have hfront := (((thinned_stripListMarker s).trans (thinned_stripLast comma_lt _)).trans
    (thinned_stripWrappingQuotes _)).trans (thinned_stripHash _)
  have herase := (hfront.trans (thinned_erase grave_lt _)).trans (thinned_erase star_lt _)
  exact (herase.trans (thinned_trimCopy _)).trans (thinned_stripLast dot_lt _)

/-- Byte 60 of the cleaned text is not inside a character, where there is such a byte. -/
def CutWhole (value : Bytes) : Prop :=
  60 < (uncutTitle value).length → Boundary (uncutTitle value) 60

theorem validUtf8_cleanTitleText_iff {value : Bytes} (h : validUtf8 value = true) :
    validUtf8 (cleanTitleText value) = true ↔ CutWhole value := by
  have huncut : validUtf8 (uncutTitle value) = true := (thinned_uncutTitle value).validUtf8 h
  unfold cleanTitleText CutWhole
  dsimp only
  split
  · rename_i hlong
    rw [(thinned_trimCopy _).validUtf8_take_iff huncut]
    exact ⟨fun hcut _ => hcut, fun hcut => hcut hlong⟩
  · rename_i hshort
    exact ⟨fun _ hlong => absurd hlong hshort, fun _ => huncut⟩

/-- A title that is short already is not cut again. -/
theorem cutWhole_of_short {value : Bytes} (h : value.length ≤ 60) : CutWhole value := fun hlong =>
  absurd (Nat.le_trans (thinned_uncutTitle value).length_le h) (Nat.not_le_of_lt hlong)

/-! The texts that are cleaned -/

/-- Line that `first_nonempty_line` returns the title of. -/
def firstLine (body : Bytes) : Option Bytes :=
  (getLines body).find? fun line => cleanTitleText line ≠ []

def sentenceOf (body : Bytes) : Bytes := (trimCopy body).takeWhile fun b => b ∉ ascii ".!?\n"

def firstWords (body : Bytes) (maxWords : Nat) : List Bytes :=
  ((wordsOf body).filter fun word => cleanTitleText word ≠ []).take maxWords

/-- The lines that are read until there are three titles. -/
def readLines : List Bytes → List Bytes → List Bytes
  | _, [] => []
  | out, line :: lines =>
    if out.length < 3 then line :: readLines (addUniqueTitle out line) lines else []

/-- What is cleaned of a model's answer. -/
def generatedTexts (parse : Bytes → Option Json) (generated : Bytes) : List Bytes :=
  let whole := jsonStrings parse generated
  let out := whole.foldl addUniqueTitle []
  if out ≠ [] then whole
  else
    let part := (bracketed generated).elim [] (jsonStrings parse)
    let out := part.foldl addUniqueTitle out
    if out ≠ [] then whole ++ part
    else whole ++ part ++ readLines out (getLines generated)

/-- What is cleaned of a body, less the lines and words that nothing is left of. -/
structure BodyWhole (body : Bytes) : Prop where
  line : ∀ line ∈ firstLine body, CutWhole line
  sentence : CutWhole (sentenceOf body)
  words : ∀ word ∈ firstWords body 5, CutWhole word
  joined : CutWhole (joined (titleWords body 5))
  overview : CutWhole (firstWordsTitle body 5 ++ ascii " Overview")
  notes : CutWhole (ascii "Notes on " ++ firstWordsTitle body 5)

def Whole (parse : Bytes → Option Json) (body : Bytes) (generated : Option Bytes) : Prop :=
  BodyWhole body ∧ ∀ answer ∈ generated, ∀ text ∈ generatedTexts parse answer, CutWhole text

/-- A candidate that is valid, and that its cleaning cuts whole. -/
def Sound (candidate : Bytes) : Prop := validUtf8 candidate = true ∧ CutWhole candidate

def AllUtf8 (titles : List Bytes) : Prop := ∀ title ∈ titles, validUtf8 title = true

theorem AllUtf8.add {titles : List Bytes} (h : AllUtf8 titles) {candidate : Bytes}
    (hsound : Sound candidate) : AllUtf8 (addUniqueTitle titles candidate) := by
  rcases addUniqueTitle_cases titles candidate with heq | ⟨-, -, -, heq⟩
  · rw [heq]
    exact h
  · rw [heq]
    intro title htitle
    rcases List.mem_append.mp htitle with htitle | htitle
    · exact h title htitle
    · rw [List.mem_singleton.mp htitle]
      exact (validUtf8_cleanTitleText_iff hsound.1).mpr hsound.2

theorem AllUtf8.foldl {titles : List Bytes} (h : AllUtf8 titles) {candidates : List Bytes}
    (hsound : ∀ candidate ∈ candidates, Sound candidate) :
    AllUtf8 (candidates.foldl addUniqueTitle titles) :=
  List.foldlRecOn candidates addUniqueTitle h fun _ hout candidate hmem =>
    hout.add (hsound candidate hmem)

/-! The texts of a body -/

theorem isNewline_lt {b : UInt8} (h : (b == 10) = true) : b.toNat < 0x80 := by
  rw [eq_of_beq h]
  decide

theorem validUtf8_of_mem_getLines {text line : Bytes} (h : validUtf8 text = true)
    (hline : line ∈ getLines text) : validUtf8 line = true := by
  have hparts : line ∈ text.splitOn 10 := by
    unfold getLines at hline
    dsimp only at hline
    split at hline
    · exact List.mem_of_mem_dropLast hline
    · exact hline
  rw [List.splitOn_eq_splitOnP] at hparts
  exact validUtf8_of_mem_splitOnP (fun _ => isNewline_lt) h hparts

theorem validUtf8_of_mem_wordsOf {text word : Bytes} (h : validUtf8 text = true)
    (hword : word ∈ wordsOf text) : validUtf8 word = true :=
  validUtf8_of_mem_splitOnP (fun _ => isSpace_lt) h (List.mem_of_mem_filter hword)

theorem firstNonemptyLine_eq (body : Bytes) :
    firstNonemptyLine body = ((firstLine body).map cleanTitleText).getD [] := by
  simp only [firstNonemptyLine, firstLine, List.find?_map, Function.comp_def]

theorem firstSentence_eq (body : Bytes) :
    firstSentence body = cleanTitleText (sentenceOf body) := by
  rw [firstSentence, sentenceOf]

theorem titleWords_eq (body : Bytes) (maxWords : Nat) :
    titleWords body maxWords = (firstWords body maxWords).map cleanTitleText := by
  simp only [titleWords, firstWords, List.filter_map, List.map_take, Function.comp_def]

theorem validUtf8_joined {words : List Bytes} (h : AllUtf8 words) :
    validUtf8 (joined words) = true := by
  induction words with
  | nil => rfl
  | cons word words ih =>
    have hword := h word (.head _)
    have hrest := ih fun other hother => h other (.tail _ hother)
    cases words with
    | nil => exact hword
    | cons next words =>
      rw [joined]
      exact validUtf8_append (validUtf8_append hword (by decide)) hrest

theorem validUtf8_sentenceOf {body : Bytes} (h : validUtf8 body = true) :
    validUtf8 (sentenceOf body) = true := by
  refine validUtf8_takeWhile (fun b hb => ?_) ((thinned_trimCopy body).validUtf8 h)
  have hstop : b ∈ ascii ".!?\n" := of_not_not (of_decide_eq_false hb)
  have hall : (ascii ".!?\n").all (fun b => b.toNat < 0x80) = true := by decide
  exact of_decide_eq_true (List.all_eq_true.mp hall b hstop)

theorem validUtf8_firstWordsTitle {body : Bytes} (h : validUtf8 body = true)
    (hcut : BodyWhole body) : validUtf8 (firstWordsTitle body 5) = true := by
  have hwords : AllUtf8 (titleWords body 5) := by
    rw [titleWords_eq]
    intro title htitle
    obtain ⟨word, hword, rfl⟩ := List.mem_map.mp htitle
    have hmem := List.mem_of_mem_filter (List.mem_of_mem_take hword)
    exact (validUtf8_cleanTitleText_iff (validUtf8_of_mem_wordsOf h hmem)).mpr
      (hcut.words word hword)
  rw [firstWordsTitle]
  exact (validUtf8_cleanTitleText_iff (validUtf8_joined hwords)).mpr hcut.joined

theorem cutWhole_cleaned (text : Bytes) : CutWhole (cleanTitleText text) := by
  have hshort := cleanTitleText_length_le text
  generalize cleanTitleText text = title at hshort ⊢
  exact cutWhole_of_short hshort

theorem cleaned_whole {text : Bytes} (h : validUtf8 text = true) (hcut : CutWhole text) :
    Sound (cleanTitleText text) :=
  ⟨(validUtf8_cleanTitleText_iff h).mpr hcut, cutWhole_cleaned text⟩

theorem sound_firstNonemptyLine {body : Bytes} (h : validUtf8 body = true) (hcut : BodyWhole body) :
    Sound (firstNonemptyLine body) := by
  rw [firstNonemptyLine_eq]
  cases hline : firstLine body with
  | none =>
    rw [Option.map_none, Option.getD_none]
    exact ⟨rfl, cutWhole_of_short (Nat.zero_le _)⟩
  | some line =>
    rw [Option.map_some, Option.getD_some]
    have hlines := List.mem_of_find?_eq_some hline
    exact cleaned_whole (validUtf8_of_mem_getLines h hlines) (hcut.line line hline)

theorem sound_firstSentence {body : Bytes} (h : validUtf8 body = true) (hcut : BodyWhole body) :
    Sound (firstSentence body) := by
  rw [firstSentence_eq]
  exact cleaned_whole (validUtf8_sentenceOf h) hcut.sentence

theorem sound_firstWordsTitle {body : Bytes} (h : validUtf8 body = true) (hcut : BodyWhole body) :
    Sound (firstWordsTitle body 5) := by
  refine ⟨validUtf8_firstWordsTitle h hcut, ?_⟩
  rw [firstWordsTitle]
  exact cutWhole_cleaned _

theorem sound_overview {title : Bytes} (h : validUtf8 title = true)
    (hcut : CutWhole (title ++ ascii " Overview")) : Sound (title ++ ascii " Overview") := by
  have hword : validUtf8 (ascii " Overview") = true := by decide
  exact ⟨validUtf8_append h hword, hcut⟩

theorem sound_notes {title : Bytes} (h : validUtf8 title = true)
    (hcut : CutWhole (ascii "Notes on " ++ title)) : Sound (ascii "Notes on " ++ title) := by
  have hword : validUtf8 (ascii "Notes on ") = true := by decide
  exact ⟨validUtf8_append hword h, hcut⟩

theorem sound_bodyCandidates {body : Bytes} (h : validUtf8 body = true) (hcut : BodyWhole body)
    {candidate : Bytes} (hmem : candidate ∈ bodyCandidates body) : Sound candidate := by
  have hline := sound_firstNonemptyLine h hcut
  have hsentence := sound_firstSentence h hcut
  have hshort := sound_firstWordsTitle h hcut
  have hoverview := sound_overview hshort.1 hcut.overview
  have hnotes := sound_notes hshort.1 hcut.notes
  unfold bodyCandidates at hmem
  dsimp only at hmem
  generalize firstWordsTitle body 5 = title at *
  generalize firstNonemptyLine body = line at *
  generalize firstSentence body = sentence at *
  split at hmem
  all_goals
    simp only [List.mem_append, List.mem_cons, List.not_mem_nil, or_false] at hmem
    grind

theorem AllUtf8.padTitles {n : Nat} {titles padded : List Bytes} (h : AllUtf8 titles)
    (hpad : padTitles n titles = some padded) : AllUtf8 padded := by
  refine padTitles_invariant (fun out hroom hout => hout.add ?_) h hpad
  have hall : ∀ k < 3, validUtf8 (ascii "Title Option " ++ decimal (k + 1)) = true ∧
      (ascii "Title Option " ++ decimal (k + 1)).length ≤ 60 := by decide
  exact ⟨(hall _ hroom).1, cutWhole_of_short (hall _ hroom).2⟩

theorem AllUtf8.deterministic {n : Nat} {body : Bytes} {titles : List Bytes}
    (h : validUtf8 body = true) (hcut : BodyWhole body)
    (htitles : deterministicTitleSuggestions n body = some titles) : AllUtf8 titles := by
  have hsummary : Sound (ascii "Card Summary") := ⟨by decide, cutWhole_of_short (by decide)⟩
  have hideas : Sound (ascii "Key Ideas") := ⟨by decide, cutWhole_of_short (by decide)⟩
  have hnone : AllUtf8 [] := fun _ hmem => absurd hmem List.not_mem_nil
  have hbody : AllUtf8 ((bodyCandidates body).foldl addUniqueTitle []) :=
    hnone.foldl fun _ => sound_bodyCandidates h hcut
  exact ((hbody.add hsummary).add hideas).padTitles htitles

theorem Titles.padTitles {n : Nat} {titles padded : List Bytes} (h : Titles titles)
    (hpad : padTitles n titles = some padded) : Titles padded :=
  padTitles_invariant (fun _ _ hout => hout.add _) h hpad

theorem Titles.deterministic {n : Nat} {body : Bytes} {titles : List Bytes}
    (htitles : deterministicTitleSuggestions n body = some titles) : Titles titles :=
  (((titles_nil.foldl (bodyCandidates body)).add _).add _).padTitles htitles

/-! The model's answer -/

section Parse
variable {parse : Bytes → Option Json}

theorem validUtf8_of_mem_jsonStrings (hparse : ∀ text j, parse text = some j → j.encodable = true)
    {candidate text : Bytes} (htext : text ∈ jsonStrings parse candidate) :
    validUtf8 text = true := by
  unfold jsonStrings at htext
  split at htext
  · rename_i items hitems
    have hall := hparse candidate _ hitems
    rw [Json.encodable, Json.encodableItems_eq, List.all_eq_true] at hall
    obtain ⟨item, hitem, hstr⟩ := List.mem_filterMap.mp htext
    cases item with
    | str s =>
      rw [← Option.some.inj hstr]
      exact hall _ hitem
    | _ => cases hstr
  · exact absurd htext List.not_mem_nil

theorem AllUtf8.lines {titles : List Bytes} (h : AllUtf8 titles) {texts : List Bytes}
    (hvalid : AllUtf8 texts) (hcut : ∀ text ∈ readLines titles texts, CutWhole text) :
    AllUtf8 (texts.foldl
      (fun out line => if out.length < 3 then addUniqueTitle out line else out) titles) := by
  induction texts generalizing titles with
  | nil => exact h
  | cons line texts ih =>
    rw [List.foldl_cons]
    have hrest : AllUtf8 texts := fun text htext => hvalid text (.tail _ htext)
    rw [readLines] at hcut
    split
    · rename_i hroom
      rw [if_pos hroom] at hcut
      exact ih (h.add ⟨hvalid line (.head _), hcut line (.head _)⟩) hrest fun text htext =>
        hcut text (.tail _ htext)
    · rename_i hfull
      refine ih h hrest fun text htext => ?_
      cases texts with
      | nil => exact absurd htext List.not_mem_nil
      | cons next texts =>
        rw [readLines, if_neg hfull] at htext
        exact absurd htext List.not_mem_nil

theorem AllUtf8.parsed (hparse : ∀ text j, parse text = some j → j.encodable = true)
    {generated : Bytes} (h : validUtf8 generated = true)
    (hcut : ∀ text ∈ generatedTexts parse generated, CutWhole text) :
    AllUtf8 (parseTitleSuggestions parse generated) := by
  have hnone : AllUtf8 [] := fun _ hmem => absurd hmem List.not_mem_nil
  have hpart : AllUtf8 ((bracketed generated).elim [] (jsonStrings parse)) := by
    intro text htext
    cases hbracket : bracketed generated with
    | none =>
      rw [hbracket] at htext
      exact absurd htext List.not_mem_nil
    | some inner =>
      rw [hbracket] at htext
      exact validUtf8_of_mem_jsonStrings hparse htext
  unfold generatedTexts at hcut
  unfold parseTitleSuggestions
  dsimp only at hcut ⊢
  split at hcut
  · rename_i hout
    rw [if_pos hout]
    exact hnone.foldl fun text htext => ⟨validUtf8_of_mem_jsonStrings hparse htext, hcut text htext⟩
  · rename_i hout
    rw [if_neg hout]
    rw [not_not.mp hout] at hcut ⊢
    split at hcut
    · rename_i hsecond
      rw [if_pos hsecond]
      exact hnone.foldl fun text htext =>
        ⟨hpart text htext, hcut text (List.mem_append_right _ htext)⟩
    · rename_i hsecond
      rw [if_neg hsecond]
      rw [not_not.mp hsecond] at hcut ⊢
      exact hnone.lines (fun line => validUtf8_of_mem_getLines h) fun text htext =>
        hcut text (List.mem_append_right _ htext)

theorem AllUtf8.suggestions (hparse : ∀ text j, parse text = some j → j.encodable = true) {n : Nat}
    {body : Bytes} {generated : Option Bytes} (h : validUtf8 body = true)
    (hgenerated : ∀ answer ∈ generated, validUtf8 answer = true)
    (hcut : Whole parse body generated) {titles : List Bytes}
    (htitles : buildSuggestions parse n body generated = some titles) : AllUtf8 titles := by
  rw [buildSuggestions, Option.map_eq_some_iff] at htitles
  obtain ⟨suggestions, hdet, htitles⟩ := htitles
  have hsuggestions := AllUtf8.deterministic h hcut.1 hdet
  cases generated with
  | none =>
    rw [← htitles]
    exact hsuggestions
  | some answer =>
    dsimp only at htitles
    split at htitles
    · have hparsed := AllUtf8.parsed hparse (hgenerated answer rfl) (hcut.2 answer rfl)
      have hmerged := hparsed.foldl fun title htitle =>
        ⟨hsuggestions title htitle,
          cutWhole_of_short ((Titles.deterministic hdet).short title htitle)⟩
      rw [← htitles]
      exact fun title htitle => hmerged title (List.mem_of_mem_take htitle)
    · rw [← htitles]
      exact hsuggestions

end Parse

/-! What is recorded -/

theorem encodable_suggestionsJson (titles : List Bytes) :
    (suggestionsJson titles).encodable = true ↔ AllUtf8 titles := by
  have hkey : validUtf8 (ascii "suggestions") = true := by decide
  rw [suggestionsJson, Json.object]
  simp only [List.foldr_cons, List.foldr_nil, Json.insertField, Json.encodable,
    Json.encodableFields, Json.encodableItems_eq, hkey, Bool.true_and, Bool.and_true, List.all_map, List.all_eq_true]
  exact Iff.rfl

/-- What a call of `evaluate_and_record` leaves: it returns, `dismiss_stale_variants` throws, or
`create_or_get` does after it. -/
inductive Outcome where
  | returned (state : State)
  | notDismissed
  | failed (state : State)

/-- `evaluate_and_record` of an accepted candidate, statement by statement. -/
def evaluateAndRecord (t : State) (input : NudgeCandidateInput) (shouldNudge : Bool) (text : Bytes)
    (metaJson : Json) (now : Int64) : Outcome :=
  let n := input.nudge text metaJson
  if !shouldNudge then .returned t
  else if t.nudges.any fun m => sameSubject m n && sameBasis m n = some true then .returned t
  else
    match t.dismissStaleVariants n now with
    | none => .notDismissed
    | some u =>
      if n.projectId ∉ t.projectIds ∨ !metaJson.encodable then .failed u
      else if (Rows.get AiDurability.Nudge.nudgeId n.nudgeId u.nudges).isSome then .returned u
      else .returned { u with nudges := Rows.put AiDurability.Nudge.nudgeId n u.nudges }

section Record
variable {t u : State} {input : NudgeCandidateInput} {shouldNudge : Bool} {text : Bytes}
  {metaJson : Json} {now : Int64}

theorem not_failed (hproject : cString input.projectId ∈ t.projectIds)
    (hmeta : metaJson.encodable = true) :
    evaluateAndRecord t input shouldNudge text metaJson now ≠ .failed u := by
  have hrow : ¬ ((input.nudge text metaJson).projectId ∉ t.projectIds ∨
      (!metaJson.encodable) = true) := by
    simp [NudgeCandidateInput.nudge, hproject, hmeta]
  unfold evaluateAndRecord
  simp only [if_neg hrow]
  split
  · exact Outcome.noConfusion
  · split
    · exact Outcome.noConfusion
    · cases t.dismissStaleVariants (input.nudge text metaJson) now with
      | none => exact Outcome.noConfusion
      | some v =>
        dsimp only
        split
        · exact Outcome.noConfusion
        · exact Outcome.noConfusion

/-- The earlier variants are dismissed, and the call throws. -/
theorem failed_of_not_encodable (hmeta : metaJson.encodable = false)
    (hnew : (t.nudges.any fun m => sameSubject m (input.nudge text metaJson) &&
      sameBasis m (input.nudge text metaJson) = some true) = false)
    (hdismiss : t.dismissStaleVariants (input.nudge text metaJson) now = some u) :
    evaluateAndRecord t input true text metaJson now = .failed u := by
  unfold evaluateAndRecord
  dsimp only
  rw [hnew, hdismiss, hmeta]
  simp

/-- Otherwise the call is `recordNudge`. -/
theorem recordNudge_eq (hproject : cString input.projectId ∈ t.projectIds)
    (hmeta : metaJson.encodable = true) :
    t.recordNudge input shouldNudge text metaJson now =
      match evaluateAndRecord t input shouldNudge text metaJson now with
      | .returned u => some u
      | _ => none := by
  have hrow : ¬ ((input.nudge text metaJson).projectId ∉ t.projectIds ∨
      (!metaJson.encodable) = true) := by
    simp [NudgeCandidateInput.nudge, hproject, hmeta]
  unfold evaluateAndRecord State.recordNudge
  simp only [if_neg hrow]
  split
  · rfl
  · split
    · rfl
    · cases t.dismissStaleVariants (input.nudge text metaJson) now with
      | none => rfl
      | some v =>
        rw [Option.map_some]
        dsimp only
        split
        · rfl
        · rfl

end Record

/-! A body without a model -/

theorem prefix_padTitles {n : Nat} {titles padded : List Bytes}
    (h : padTitles n titles = some padded) : titles <+: padded :=
  padTitles_invariant (fun out _ hout => hout.trans (addUniqueTitle_mono out _))
    (List.prefix_refl titles) h

theorem addUniqueTitle_nil {candidate : Bytes}
    (hvalid : validSuggestedTitle (cleanTitleText candidate) = true) :
    addUniqueTitle [] candidate = [cleanTitleText candidate] := by
  unfold addUniqueTitle
  dsimp only
  generalize cleanTitleText candidate = cleaned at hvalid ⊢
  rw [hvalid, Bool.not_true, if_neg Bool.false_ne_true]
  exact if_pos ⟨rfl, Nat.zero_lt_succ 2⟩

/-- The title of the first line is there, unless it is rejected. -/
theorem firstLine_mem {n : Nat} {body line : Bytes} {titles : List Bytes}
    (hline : firstLine body = some line)
    (hvalid : validSuggestedTitle (cleanTitleText (cleanTitleText line)) = true)
    (htitles : deterministicTitleSuggestions n body = some titles) :
    cleanTitleText (cleanTitleText line) ∈ titles := by
  have hfirst : firstNonemptyLine body = cleanTitleText line := by
    rw [firstNonemptyLine_eq, hline, Option.map_some, Option.getD_some]
  obtain ⟨others, hcandidates⟩ : ∃ others, bodyCandidates body = cleanTitleText line :: others := by
    rw [← hfirst]
    exact ⟨_, rfl⟩
  have hfold : [cleanTitleText (cleanTitleText line)] <+:
      (bodyCandidates body).foldl addUniqueTitle [] := by
    rw [hcandidates, List.foldl_cons, addUniqueTitle_nil hvalid]
    exact prefix_foldl _ others
  have hall := (hfold.trans (addUniqueTitle_mono _ _)).trans
    ((addUniqueTitle_mono _ _).trans (prefix_padTitles htitles))
  exact hall.subset (List.mem_singleton_self _)

theorem cutWhole_of_twice {line : Bytes} (h : validUtf8 line = true)
    (htwice : validUtf8 (cleanTitleText (cleanTitleText line)) = true) : CutWhole line := by
  intro hlong
  have huncut : validUtf8 (uncutTitle line) = true := (thinned_uncutTitle line).validUtf8 h
  have hfirst : cleanTitleText line = trimCopy ((uncutTitle line).take 60) := by
    unfold cleanTitleText
    dsimp only
    rw [if_pos hlong]
  have hshort := Nat.le_trans (thinned_uncutTitle (cleanTitleText line)).length_le
    (cleanTitleText_length_le line)
  have hsecond : cleanTitleText (cleanTitleText line) = uncutTitle (cleanTitleText line) := by
    generalize cleanTitleText line = title at hshort ⊢
    unfold cleanTitleText
    dsimp only
    rw [if_neg (Nat.not_lt_of_le hshort)]
  rw [hsecond, hfirst] at htwice
  exact (((thinned_trimCopy _).trans (thinned_uncutTitle _)).validUtf8_take_iff huncut).mp htwice

/-- A title is a text where its cut is between two characters. Where every cut is, all suggestions
are texts and the call does not fail after it has dismissed the earlier variants; without a model,
and where the title of the first line is not rejected, the cut of that line has to be. -/
theorem suggestions_utf8 {parse : Bytes → Option Json}
    (hparse : ∀ text j, parse text = some j → j.encodable = true) {n : Nat} {body : Bytes}
    {generated : Option Bytes} (h : validUtf8 body = true)
    (hgenerated : ∀ answer ∈ generated, validUtf8 answer = true) {titles : List Bytes}
    (htitles : buildSuggestions parse n body generated = some titles) :
    (∀ value, validUtf8 value = true → (validUtf8 (cleanTitleText value) = true ↔ CutWhole value)) ∧
    (Whole parse body generated → AllUtf8 titles ∧
      ∀ (t u : State) (input : NudgeCandidateInput) (shouldNudge : Bool) (text : Bytes) (now : Int64),
        cString input.projectId ∈ t.projectIds →
        evaluateAndRecord t input shouldNudge text (suggestionsJson titles) now ≠ .failed u) ∧
    (∀ line ∈ firstLine body, generated = none →
      validSuggestedTitle (cleanTitleText (cleanTitleText line)) = true →
      AllUtf8 titles → CutWhole line) := by
  refine ⟨fun value hvalue => validUtf8_cleanTitleText_iff hvalue, fun hwhole => ?_, ?_⟩
  · have hall := AllUtf8.suggestions hparse h hgenerated hwhole htitles
    exact ⟨hall, fun t u input shouldNudge text now hproject =>
      not_failed hproject ((encodable_suggestionsJson titles).mpr hall)⟩
  · rintro line hline rfl hvalid hall
    rw [buildSuggestions, Option.map_eq_some_iff] at htitles
    obtain ⟨suggestions, hdet, rfl⟩ := htitles
    have hlines := List.mem_of_find?_eq_some hline
    exact cutWhole_of_twice (validUtf8_of_mem_getLines h hlines)
      (hall _ (firstLine_mem hline hvalid hdet))

theorem suggestions_utf8_plan :
    (∀ value, validUtf8 value = true → (validUtf8 (cleanTitleText value) = true ↔ CutWhole value)) ∧
    (Whole (fun _ => none) (ascii "Plan") none → AllUtf8
        [ascii "Plan", ascii "Plan Overview", ascii "Notes on Plan"] ∧
      ∀ (t u : State) (input : NudgeCandidateInput) (shouldNudge : Bool) (text : Bytes) (now : Int64),
        cString input.projectId ∈ t.projectIds →
        evaluateAndRecord t input shouldNudge text (suggestionsJson
          [ascii "Plan", ascii "Plan Overview", ascii "Notes on Plan"]) now ≠ .failed u) ∧
    (∀ line ∈ firstLine (ascii "Plan"), (none : Option Bytes) = none →
      validSuggestedTitle (cleanTitleText (cleanTitleText line)) = true →
      AllUtf8 [ascii "Plan", ascii "Plan Overview", ascii "Notes on Plan"] → CutWhole line) :=
  @suggestions_utf8 (fun _ => none) (fun _ _ h => by cases h) 2 (ascii "Plan") none (by decide)
    (fun _ h => by cases h) _ (by decide +kernel)

/-- A body whose byte 60 is inside a character, and a card that has an earlier variant. -/
def longBody : Bytes := List.replicate 59 97 ++ [0xC3, 0xA9, 98]

def titleInput (basis : String) (createdAt : Int64) : NudgeCandidateInput where
  kind := .titleSuggestion
  projectId := ascii "p1"
  cardId := some (ascii "c1")
  createdAt := createdAt
  basisFingerprint := some (ascii basis)
  basisCommit := none

def earlierVariant : State :=
  { AiDurability.onePlainProject with nudges := [(titleInput "f0" 5).nudge [] (suggestionsJson [])] }

theorem suggestions_utf8_fails :
    validUtf8 longBody = true ∧
    ∃ titles, buildSuggestions (fun _ => none) 2 longBody none = some titles ∧ ¬ AllUtf8 titles ∧
      ∃ u, evaluateAndRecord earlierVariant (titleInput "f1" 6) true [] (suggestionsJson titles) 6 =
          .failed u ∧
        (earlierVariant.nudges.all fun m => m.dismissedAt.isNone) = true ∧
        (u.nudges.all fun m => m.dismissedAt.isSome) = true := by
  have hbuild : ((buildSuggestions (fun _ => none) 2 longBody none).any fun titles =>
      !(suggestionsJson titles).encodable) = true := by decide +kernel
  obtain ⟨titles, htitles, hmeta⟩ := (Option.any_eq_true _ _).mp hbuild
  rw [Bool.not_eq_true'] at hmeta
  have hdismiss : ((earlierVariant.dismissStaleVariants
      ((titleInput "f1" 6).nudge [] (suggestionsJson titles)) 6).any fun u =>
        u.nudges.all fun m => m.dismissedAt.isSome) = true := by
    have hsame : earlierVariant.dismissStaleVariants
        ((titleInput "f1" 6).nudge [] (suggestionsJson titles)) 6 =
        earlierVariant.dismissStaleVariants
          ((titleInput "f1" 6).nudge [] (suggestionsJson [])) 6 := rfl
    rw [hsame]
    decide +kernel
  obtain ⟨u, hu, hall⟩ := (Option.any_eq_true _ _).mp hdismiss
  have hnew : (earlierVariant.nudges.any fun m =>
      sameSubject m ((titleInput "f1" 6).nudge [] (suggestionsJson titles)) &&
        sameBasis m ((titleInput "f1" 6).nudge [] (suggestionsJson titles)) = some true) = false := by
    have hsame : (earlierVariant.nudges.any fun m =>
        sameSubject m ((titleInput "f1" 6).nudge [] (suggestionsJson titles)) &&
          sameBasis m ((titleInput "f1" 6).nudge [] (suggestionsJson titles)) = some true) =
        (earlierVariant.nudges.any fun m =>
          sameSubject m ((titleInput "f1" 6).nudge [] (suggestionsJson [])) &&
            sameBasis m ((titleInput "f1" 6).nudge [] (suggestionsJson [])) = some true) := rfl
    rw [hsame]
    decide +kernel
  refine ⟨by decide, titles, htitles, fun h => ?_, u, failed_of_not_encodable hmeta hnew hu,
    by decide, hall⟩
  rw [(encodable_suggestionsJson titles).mpr h] at hmeta
  cases hmeta

end NudgeTitles

end HolderDaemon
