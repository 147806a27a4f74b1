import HolderDaemon.Utf8Cuts
import HolderDaemon.Pieces
import HolderDaemon.RunnerRegistry

/-!
The titles that a nudge suggests for a card (`build_nudge_meta_json` in `ai/NudgeService.cpp`):
three of them, made of the card's body and of what a model answers.
-/

set_option autoImplicit false

open Bytes
open Pieces (trim)
open HolderDaemon.Runners (isSpace)

namespace HolderDaemon

namespace NudgeTitles

/-! Cleaning -/

def lowerCopy (s : Bytes) : Bytes := s.map fun b => if 65 ≤ b ∧ b ≤ 90 then b + 32 else b

def trimCopy (s : Bytes) : Bytes := trim isSpace s

def stripWrappingQuotes (value : Bytes) : Bytes :=
  let value := trimCopy value
  if 2 ≤ value.length ∧ ((value.head? = some 34 ∧ value.getLast? = some 34) ∨
      (value.head? = some 39 ∧ value.getLast? = some 39)) then
    trimCopy (value.drop 1).dropLast
  else value

/-- `-` and `*` in front, with the blanks after each of them. -/
def stripMarks : Nat → Bytes → Bytes
  | 0, value => value
  | _, [] => []
  | n + 1, b :: rest => if b = 45 ∨ b = 42 then stripMarks n (trimCopy rest) else b :: rest

def stripListMarker (value : Bytes) : Bytes :=
  let value := trimCopy value
  let value := stripMarks value.length value
  match value.dropWhile isDigit with
  | [] => value
  | b :: rest => if value.takeWhile isDigit ≠ [] ∧ (b = 46 ∨ b = 41) then trimCopy rest else value

/-- A byte at the end, and the blanks before it. -/
def stripLast (last : UInt8) (value : Bytes) : Bytes :=
  if value.getLast? = some last then trimCopy value.dropLast else value

def stripHash (value : Bytes) : Bytes :=
  if value.head? = some 35 then trimCopy (value.drop 1) else value

/-- `clean_title_text` before its cut. -/
def uncutTitle (value : Bytes) : Bytes :=
  let value := stripHash (stripWrappingQuotes (stripLast 44 (stripListMarker value)))
  stripLast 46 (trimCopy ((value.filter fun b => b ≠ 96).filter fun b => b ≠ 42))

def cleanTitleText (value : Bytes) : Bytes :=
  let value := uncutTitle value
  if 60 < value.length then trimCopy (value.take 60) else value

def validSuggestedTitle (title : Bytes) : Bool :=
  title ≠ [] && (10 : UInt8) ∉ title &&
    !(title = ascii "[" || title = ascii "]" || title = ascii "\x7b" || title = ascii "\x7d") &&
    ((91 : UInt8) ∉ title && (93 : UInt8) ∉ title) &&
    !(lowerCopy title = ascii "json" || lowerCopy title = ascii "javascript" ||
      lowerCopy title = ascii "titles") &&
    !(ascii "untitled").isPrefixOf (lowerCopy title)

/-! Titles -/

def addUniqueTitle (titles : List Bytes) (candidate : Bytes) : List Bytes :=
  let cleaned := cleanTitleText candidate
  if !validSuggestedTitle cleaned then titles
  else if (titles.any fun existing => lowerCopy existing = lowerCopy cleaned) = false ∧
      titles.length < 3 then titles ++ [cleaned]
  else titles

/-- `std::getline` until the end. -/
def getLines (text : Bytes) : List Bytes :=
  let parts := text.splitOn 10
  if parts.getLast? = some [] then parts.dropLast else parts

section Parse
variable (parse : Bytes → Option Json)

/-- The strings of an array. -/
def jsonStrings (candidate : Bytes) : List Bytes :=
  match parse candidate with
  | some (.arr items) =>
    items.filterMap fun item =>
      match item with
      | .str text => some text
      | _ => none
  | _ => []

/-- From the first `[` to the last `]`. -/
def bracketed (generated : Bytes) : Option Bytes :=
  if (91 : UInt8) ∈ generated ∧ (93 : UInt8) ∈ generated then
    let arrayStart := generated.idxOf 91
    let arrayEnd := generated.length - 1 - generated.reverse.idxOf 93
    if arrayStart < arrayEnd then
      some ((generated.drop arrayStart).take (arrayEnd - arrayStart + 1))
    else none
  else none

def parseTitleSuggestions (generated : Bytes) : List Bytes :=
  let out := (jsonStrings parse generated).foldl addUniqueTitle []
  if out ≠ [] then out
  else
    let out := ((bracketed generated).elim [] (jsonStrings parse)).foldl addUniqueTitle out
    if out ≠ [] then out
    else
      (getLines generated).foldl
        (fun out line => if out.length < 3 then addUniqueTitle out line else out) out

end Parse

def firstNonemptyLine (text : Bytes) : Bytes :=
  (((getLines text).map cleanTitleText).find? fun line => line ≠ []).getD []

/-- Up to the first of `.!?` and the newline. -/
def firstSentence (text : Bytes) : Bytes :=
  cleanTitleText ((trimCopy text).takeWhile fun b => b ∉ ascii ".!?\n")

/-- The words of a text, as a stream reads them. -/
def wordsOf (text : Bytes) : List Bytes := (text.splitOnP isSpace).filter fun word => word ≠ []

def joined : List Bytes → Bytes
  | [] => []
  | [word] => word
  | word :: next :: words => word ++ ascii " " ++ joined (next :: words)

def titleWords (text : Bytes) (maxWords : Nat) : List Bytes :=
  (((wordsOf text).map cleanTitleText).filter fun word => word ≠ []).take maxWords

def firstWordsTitle (text : Bytes) (maxWords : Nat) : Bytes :=
  cleanTitleText (joined (titleWords text maxWords))

/-- The candidates of a body, in the order in which they are tried. -/
def bodyCandidates (body : Bytes) : List Bytes :=
  let shortTitle := firstWordsTitle body 5
  [firstNonemptyLine body, firstSentence body, shortTitle] ++
    (if shortTitle = [] then []
    else [shortTitle ++ ascii " Overview", ascii "Notes on " ++ shortTitle])

/-- The padding loop; none where it is still going on after `n` rounds. -/
def padTitles : Nat → List Bytes → Option (List Bytes)
  | 0, _ => none
  | n + 1, out =>
    if out.length < 3 then
      padTitles n (addUniqueTitle out (ascii "Title Option " ++ decimal (out.length + 1)))
    else some out

def deterministicTitleSuggestions (n : Nat) (body : Bytes) : Option (List Bytes) :=
  let out := (bodyCandidates body).foldl addUniqueTitle []
  padTitles n (addUniqueTitle (addUniqueTitle out (ascii "Card Summary")) (ascii "Key Ideas"))

/-- `generated` is what the model answers, none where there is no model, or where it fails. -/
def buildSuggestions (parse : Bytes → Option Json) (n : Nat) (body : Bytes)
    (generated : Option Bytes) : Option (List Bytes) :=
  (deterministicTitleSuggestions n body).map fun suggestions =>
    match generated with
    | none => suggestions
    | some text =>
      let parsed := suggestions.foldl addUniqueTitle (parseTitleSuggestions parse text)
      if 3 ≤ parsed.length then parsed.take 3 else suggestions

def suggestionsJson (suggestions : List Bytes) : Json :=
  .object [(ascii "suggestions", .arr (suggestions.map .str))]

/-- For a candidate of the kind `card.title_suggestion` that names a card. -/
def buildNudgeMetaJson (parse : Bytes → Option Json) (n : Nat) (body : Bytes)
    (generated : Option Bytes) : Option Json :=
  (buildSuggestions parse n body generated).map suggestionsJson

/-! Titles that are valid, short and different -/

structure Titles (titles : List Bytes) : Prop where
  valid : ∀ title ∈ titles, validSuggestedTitle title = true
  short : ∀ title ∈ titles, title.length ≤ 60
  different : (titles.map lowerCopy).Nodup
  length_le : titles.length ≤ 3

theorem titles_nil : Titles [] where
  valid _ h := absurd h List.not_mem_nil
  short _ h := absurd h List.not_mem_nil
  different := List.nodup_nil
  length_le := Nat.zero_le _

theorem trimCopy_length_le (s : Bytes) : (trimCopy s).length ≤ s.length := by
  rw [trimCopy, trim, List.length_reverse]
  exact Nat.le_trans (List.dropWhile_suffix _).length_le
    (by rw [List.length_reverse]; exact (List.dropWhile_suffix _).length_le)

theorem cleanTitleText_length_le (value : Bytes) : (cleanTitleText value).length ≤ 60 := by
  unfold cleanTitleText
  dsimp only
  split
  · exact Nat.le_trans (trimCopy_length_le _) (List.length_take_le _ _)
  · exact Nat.le_of_not_lt ‹_›

/-- What a call adds. -/
theorem addUniqueTitle_cases (titles : List Bytes) (candidate : Bytes) :
    addUniqueTitle titles candidate = titles ∨
      validSuggestedTitle (cleanTitleText candidate) = true ∧
        lowerCopy (cleanTitleText candidate) ∉ titles.map lowerCopy ∧ titles.length < 3 ∧
        addUniqueTitle titles candidate = titles ++ [cleanTitleText candidate] := by
  unfold addUniqueTitle
  dsimp only
  split
  · exact .inl rfl
  · rename_i hvalid
    split
    · rename_i hnew
      refine .inr ⟨by simpa using hvalid, fun hmem => ?_, hnew.2, rfl⟩
      obtain ⟨existing, hexisting, hsame⟩ := List.mem_map.mp hmem
      have hnone := List.any_eq_false.mp hnew.1 existing hexisting
      exact hnone (decide_eq_true hsame)
    · exact .inl rfl

theorem Titles.snoc {titles : List Bytes} (h : Titles titles) {cleaned : Bytes}
    (hvalid : validSuggestedTitle cleaned = true) (hshort : cleaned.length ≤ 60)
    (hnew : lowerCopy cleaned ∉ titles.map lowerCopy) (hroom : titles.length < 3) :
    Titles (titles ++ [cleaned]) where
  valid title htitle := by
    rcases List.mem_append.mp htitle with htitle | htitle
    · exact h.valid title htitle
    · rw [List.mem_singleton.mp htitle]
      exact hvalid
  short title htitle := by
    rcases List.mem_append.mp htitle with htitle | htitle
    · exact h.short title htitle
    · rw [List.mem_singleton.mp htitle]
      exact hshort
  different := by
    rw [List.map_append, List.map_singleton]
    refine List.nodup_append'.mpr
      ⟨h.different, List.nodup_singleton _, fun other hother hsame => ?_⟩
    rw [List.mem_singleton.mp hsame] at hother
    exact hnew hother
  length_le := by
    rw [List.length_append, List.length_singleton]
    exact hroom

theorem Titles.add {titles : List Bytes} (h : Titles titles) (candidate : Bytes) :
    Titles (addUniqueTitle titles candidate) := by
  rcases addUniqueTitle_cases titles candidate with heq | ⟨hvalid, hnew, hroom, heq⟩
  · rw [heq]
    exact h
  · rw [heq]
    exact h.snoc hvalid (cleanTitleText_length_le candidate) hnew hroom

theorem Titles.foldl {titles : List Bytes} (h : Titles titles) (candidates : List Bytes) :
    Titles (candidates.foldl addUniqueTitle titles) :=
  List.foldlRecOn candidates addUniqueTitle h fun _ hout candidate _ => hout.add candidate

/-- A valid candidate is there afterwards, unless there are three titles. -/
theorem mem_addUniqueTitle (titles : List Bytes) {candidate : Bytes}
    (hvalid : validSuggestedTitle (cleanTitleText candidate) = true)
    (hroom : (addUniqueTitle titles candidate).length < 3) :
    lowerCopy (cleanTitleText candidate) ∈ (addUniqueTitle titles candidate).map lowerCopy := by
  unfold addUniqueTitle at hroom ⊢
  dsimp only at hroom ⊢
  generalize cleanTitleText candidate = cleaned at hvalid hroom ⊢
  rw [hvalid, Bool.not_true, if_neg Bool.false_ne_true] at hroom ⊢
  split at hroom
  · rename_i hnew
    rw [if_pos hnew, List.map_append, List.map_singleton]
    exact List.mem_append_right _ (List.mem_singleton_self _)
  · rename_i hold
    rw [if_neg hold]
    by_contra hnot
    refine hold ⟨List.any_eq_false.mpr fun existing hexisting hsame => hnot ?_, hroom⟩
    exact List.mem_map.mpr ⟨existing, hexisting, of_decide_eq_true hsame⟩

theorem addUniqueTitle_mono (titles : List Bytes) (candidate : Bytes) :
    titles <+: addUniqueTitle titles candidate := by
  rcases addUniqueTitle_cases titles candidate with heq | ⟨-, -, -, heq⟩
  · rw [heq]
  · rw [heq]
    exact List.prefix_append _ _

theorem prefix_foldl (titles : List Bytes) (candidates : List Bytes) :
    titles <+: candidates.foldl addUniqueTitle titles :=
  List.foldlRecOn candidates addUniqueTitle (List.prefix_refl titles)
    fun out hout candidate _ => hout.trans (addUniqueTitle_mono out candidate)

/-! Three titles -/

/-- The titles that are always tried last. -/
def lastCandidates : List Bytes :=
  [ascii "Card Summary", ascii "Key Ideas", ascii "Title Option 3"]

theorem lastCandidates_valid {candidate : Bytes} (h : candidate ∈ lastCandidates) :
    validSuggestedTitle (cleanTitleText candidate) = true := by
  have hall : ∀ candidate ∈ lastCandidates,
      validSuggestedTitle (cleanTitleText candidate) = true := by decide
  exact hall candidate h

theorem lastCandidates_nodup :
    (lastCandidates.map fun candidate => lowerCopy (cleanTitleText candidate)).Nodup := by decide

/-- Where some of them, or what they are cleaned to, are there, there is room for no more. -/
theorem length_le_of_last {titles candidates : List Bytes}
    (hsub : candidates.Sublist lastCandidates)
    (hmem : ∀ candidate ∈ candidates,
      lowerCopy (cleanTitleText candidate) ∈ titles.map lowerCopy) :
    candidates.length ≤ titles.length := by
  have hnodup : (candidates.map fun candidate => lowerCopy (cleanTitleText candidate)).Nodup :=
    lastCandidates_nodup.sublist (hsub.map _)
  have hsubset : (candidates.map fun candidate => lowerCopy (cleanTitleText candidate)) ⊆
      titles.map lowerCopy := by
    intro lowered hlowered
    obtain ⟨candidate, hcandidate, rfl⟩ := List.mem_map.mp hlowered
    exact hmem candidate hcandidate
  have hlength := (hnodup.subperm hsubset).length_le
  rwa [List.length_map, List.length_map] at hlength

theorem mem_of_prefix_lower {titles more : List Bytes} (h : titles <+: more) {lowered : Bytes}
    (hmem : lowered ∈ titles.map lowerCopy) : lowered ∈ more.map lowerCopy :=
  (h.map lowerCopy).subset hmem

/-- The padding loop keeps what an added title keeps. -/
theorem padTitles_invariant {motive : List Bytes → Prop}
    (hadd : ∀ out, out.length < 3 → motive out →
      motive (addUniqueTitle out (ascii "Title Option " ++ decimal (out.length + 1))))
    {n : Nat} {titles padded : List Bytes} (h : motive titles)
    (hpad : padTitles n titles = some padded) : motive padded := by
  induction n generalizing titles with
  | zero => cases hpad
  | succ n ih =>
    rw [padTitles] at hpad
    split at hpad
    · rename_i hroom
      exact ih (hadd titles hroom h) hpad
    · exact Option.some.inj hpad ▸ h

/-- One round is enough where the two titles before it were tried. -/
theorem padTitles_eq (titles : List Bytes) :
    ∃ padded, (∀ n, 2 ≤ n → padTitles n (addUniqueTitle (addUniqueTitle titles
        (ascii "Card Summary")) (ascii "Key Ideas")) = some padded) ∧
      3 ≤ padded.length ∧ (Titles titles → Titles padded) := by
  generalize hsummary : addUniqueTitle titles (ascii "Card Summary") = summary
  generalize hideas : addUniqueTitle summary (ascii "Key Ideas") = ideas
  have hkept : Titles titles → Titles ideas := fun h => by
    rw [← hideas, ← hsummary]
    exact (h.add _).add _
  by_cases hroom : ideas.length < 3
  · have hprefix : summary <+: ideas := hideas ▸ addUniqueTitle_mono summary _
    have hfirst : lowerCopy (cleanTitleText (ascii "Card Summary")) ∈ ideas.map lowerCopy := by
      refine mem_of_prefix_lower hprefix ?_
      rw [← hsummary]
      refine mem_addUniqueTitle titles (lastCandidates_valid (List.mem_cons_self)) ?_
      rw [hsummary]
      exact Nat.lt_of_le_of_lt hprefix.length_le hroom
    have hsecond : lowerCopy (cleanTitleText (ascii "Key Ideas")) ∈ ideas.map lowerCopy := by
      rw [← hideas]
      refine mem_addUniqueTitle summary (lastCandidates_valid (by simp [lastCandidates])) ?_
      rw [hideas]
      exact hroom
    have htwo : 2 ≤ ideas.length := by
      refine length_le_of_last (List.sublist_append_left [_, _] [ascii "Title Option 3"])
        fun candidate h => ?_
      rcases List.mem_cons.mp h with rfl | h
      · exact hfirst
      · rw [List.mem_singleton.mp h]
        exact hsecond
    have hlength : ideas.length = 2 := by omega
    have hname : ascii "Title Option " ++ decimal (ideas.length + 1) = ascii "Title Option 3" := by
      rw [hlength]
      decide
    have hthree : 3 ≤ (addUniqueTitle ideas (ascii "Title Option 3")).length := by
      by_contra hlt
      have hthird := @mem_addUniqueTitle ideas (ascii "Title Option 3")
        (lastCandidates_valid (by simp [lastCandidates])) (Nat.lt_of_not_le hlt)
      refine hlt (length_le_of_last (List.Sublist.refl lastCandidates) fun candidate h => ?_)
      rcases List.mem_cons.mp h with rfl | h
      · exact mem_of_prefix_lower (addUniqueTitle_mono ideas _) hfirst
      · rcases List.mem_cons.mp h with rfl | h
        · exact mem_of_prefix_lower (addUniqueTitle_mono ideas _) hsecond
        · rw [List.mem_singleton.mp h]
          exact hthird
    refine ⟨addUniqueTitle ideas (ascii "Title Option 3"), fun n hn => ?_, hthree,
      fun h => (hkept h).add _⟩
    obtain ⟨m, rfl⟩ := Nat.exists_eq_add_of_le' hn
    rw [padTitles, if_pos hroom, hname, padTitles, if_neg (Nat.not_lt_of_le hthree)]
  · refine ⟨ideas, fun n hn => ?_, Nat.le_of_not_lt hroom, hkept⟩
    obtain ⟨m, rfl⟩ := Nat.exists_eq_add_of_le' hn
    rw [padTitles, if_neg hroom]

theorem deterministic_three (body : Bytes) :
    ∃ titles, (∀ n, 2 ≤ n → deterministicTitleSuggestions n body = some titles) ∧
      titles.length = 3 ∧ Titles titles := by
  obtain ⟨titles, hpad, hthree, hkept⟩ :=
    padTitles_eq ((bodyCandidates body).foldl addUniqueTitle [])
  have htitles := hkept (titles_nil.foldl (bodyCandidates body))
  exact ⟨titles, hpad, Nat.le_antisymm htitles.length_le hthree, htitles⟩

section Parse
variable (parse : Bytes → Option Json)

/-- The loop over the lines stops where there are three titles; no call would add one then. -/
theorem titles_lines {titles : List Bytes} (h : Titles titles) (texts : List Bytes) :
    Titles (texts.foldl
      (fun out line => if out.length < 3 then addUniqueTitle out line else out) titles) := by
  refine List.foldlRecOn texts _ h fun out hout line _ => ?_
  split
  · exact hout.add line
  · exact hout

theorem titles_parse (generated : Bytes) : Titles (parseTitleSuggestions parse generated) := by
  unfold parseTitleSuggestions
  dsimp only
  have hwhole := titles_nil.foldl (jsonStrings parse generated)
  split
  · exact hwhole
  · have hpart := hwhole.foldl ((bracketed generated).elim [] (jsonStrings parse))
    split
    · exact hpart
    · exact titles_lines hpart (getLines generated)

theorem Titles.take {titles : List Bytes} (h : Titles titles) (n : Nat) :
    Titles (titles.take n) where
  valid title htitle := h.valid title (List.mem_of_mem_take htitle)
  short title htitle := h.short title (List.mem_of_mem_take htitle)
  different := by
    rw [List.map_take]
    exact h.different.sublist (List.take_sublist _ _)
  length_le := Nat.le_trans (List.length_take_le' _ _) h.length_le

theorem buildSuggestions_titles (body : Bytes) (generated : Option Bytes) :
    ∃ titles, (∀ n, 2 ≤ n → buildSuggestions parse n body generated = some titles) ∧
      titles.length = 3 ∧ Titles titles := by
  obtain ⟨suggestions, hdet, hthree, hsuggestions⟩ := deterministic_three body
  cases generated with
  | none =>
    refine ⟨suggestions, fun n hn => ?_, hthree, hsuggestions⟩
    rw [buildSuggestions, hdet n hn, Option.map_some]
  | some text =>
    have hparsed := (titles_parse parse text).foldl suggestions
    by_cases hmany :
        3 ≤ (suggestions.foldl addUniqueTitle (parseTitleSuggestions parse text)).length
    · refine ⟨_, fun n hn => ?_, ?_, hparsed.take 3⟩
      · rw [buildSuggestions, hdet n hn, Option.map_some]
        dsimp only
        rw [if_pos hmany]
      · rw [List.length_take]
        exact Nat.min_eq_left hmany
    · refine ⟨suggestions, fun n hn => ?_, hthree, hsuggestions⟩
      rw [buildSuggestions, hdet n hn, Option.map_some]
      dsimp only
      rw [if_neg hmany]

/-- Whatever the body is and the model answers, three titles are stored, and two rounds of the
padding loop are enough. -/
theorem three_suggestions (body : Bytes) (generated : Option Bytes) :
    ∃ titles, (∀ n, 2 ≤ n → buildNudgeMetaJson parse n body generated =
        some (suggestionsJson titles)) ∧
      titles.length = 3 ∧
      (∀ title ∈ titles, validSuggestedTitle title = true ∧ title.length ≤ 60) ∧
      (titles.map lowerCopy).Nodup := by
  obtain ⟨titles, hbuild, hthree, htitles⟩ := buildSuggestions_titles parse body generated
  refine ⟨titles, fun n hn => ?_, hthree, fun title hmem => ?_, htitles.different⟩
  · rw [buildNudgeMetaJson, hbuild n hn, Option.map_some]
  · exact ⟨htitles.valid title hmem, htitles.short title hmem⟩

end Parse

end NudgeTitles

end HolderDaemon
