import HolderDaemon.Pieces
import HolderDaemon.RunnerRegistry

/-!
Rolling summaries that a model has written (`normalize_and_validate_rolling_summary` in
`api/support/ThreadCompaction.cpp`): four sections of bullets, which the candidate's headings name,
or among which its lines are handed out.
-/

set_option autoImplicit false

open Bytes
open Pieces (lines trim)
open HolderDaemon.Runners (isSpace)

namespace HolderDaemon

namespace RollingSummary

/-! Lines -/

def splitLinesTrimmed (text : Bytes) : List Bytes := lines 10 isSpace (text.filter fun b => b ≠ 13)

def lowercaseAscii (s : Bytes) : Bytes := s.map fun b => if 65 ≤ b ∧ b ≤ 90 then b + 32 else b

def normalizeSectionKey (line : Bytes) : Bytes :=
  trim isSpace (lowercaseAscii (line.dropWhile fun b => b = 35))

def bulletize (line : Bytes) : Bytes :=
  if line = [] then []
  else if (ascii "- ").isPrefixOf line ∨ (ascii "* ").isPrefixOf line then line
  else
    match line with
    | digit :: 46 :: 32 :: rest =>
      if isDigit digit then ascii "- " ++ rest else ascii "- " ++ line
    | _ => ascii "- " ++ line

/-! Sections -/

inductive SummarySection where
  | decisions | constraints | openQuestions | nextActions
  deriving DecidableEq

namespace SummarySection

def key : SummarySection → Bytes
  | decisions => ascii "decisions"
  | constraints => ascii "constraints"
  | openQuestions => ascii "open questions"
  | nextActions => ascii "next actions"

def heading : SummarySection → Bytes
  | decisions => ascii "## Decisions"
  | constraints => ascii "## Constraints"
  | openQuestions => ascii "## Open Questions"
  | nextActions => ascii "## Next Actions"

def index : SummarySection → Nat
  | decisions => 0
  | constraints => 1
  | openQuestions => 2
  | nextActions => 3

end SummarySection

def sections : List SummarySection := [.decisions, .constraints, .openQuestions, .nextActions]

abbrev Buckets := SummarySection → List Bytes

/-- The section that a line is the heading of. -/
def heading? (line : Bytes) : Option SummarySection :=
  if line.head? = some 35 then sections.find? fun s => normalizeSectionKey line = s.key else none

/-- The variables of the loop over the lines. -/
structure Pass where
  current : Option SummarySection
  buckets : Buckets
  nonEmptyItems : Nat
  sectionHeadersFound : Nat

def Pass.line (p : Pass) (line : Bytes) : Pass :=
  match heading? line with
  | some s => { p with current := some s, sectionHeadersFound := p.sectionHeadersFound + 1 }
  | none =>
    match p.current with
    | none => p
    | some s =>
      let bullet := bulletize line
      if bullet = [] then p
      else { p with
        buckets := Function.update p.buckets s (p.buckets s ++ [bullet])
        nonEmptyItems := p.nonEmptyItems + 1 }

def firstPass (ls : List Bytes) : Pass := ls.foldl Pass.line ⟨none, fun _ => [], 0, 0⟩

/-- The lines that do not begin with `#`. -/
def contentLines (ls : List Bytes) : List Bytes :=
  ((ls.filter fun line => line.head? ≠ some 35).map bulletize).filter fun bullet => bullet ≠ []

/-- Three lines for each section, as far as there are any; the buckets keep what they hold. -/
def handedOut (content : List Bytes) (buckets : Buckets) : Buckets := fun s =>
  buckets s ++ (content.drop (3 * s.index)).take 3

structure Draft where
  buckets : Buckets
  nonEmptyItems : Nat
  usedFallback : Bool

/-- None where there are too few lines. -/
def draft (ls : List Bytes) : Option Draft :=
  let pass := firstPass ls
  if pass.nonEmptyItems < 2 ∨ pass.sectionHeadersFound < 2 then
    let content := contentLines ls
    if content.length < 2 then none
    else some ⟨handedOut content pass.buckets, content.length, true⟩
  else some ⟨pass.buckets, pass.nonEmptyItems, false⟩

def sectionText (s : SummarySection) (items : List Bytes) : Bytes :=
  s.heading ++ ascii "\n" ++
    if items = [] then ascii "- (none)\n\n"
    else (items.take 6).flatMap (fun line => line ++ ascii "\n") ++ ascii "\n"

def summaryText (buckets : Buckets) : Bytes := sections.flatMap fun s => sectionText s (buckets s)

structure SummaryValidationResult where
  accepted : Bool := false
  summary : Bytes := []
  reason : Bytes := []
  extractedItems : Nat := 0
  usedFallbackSections : Bool := false
  deriving DecidableEq

def truncated (text : Bytes) (maxSummaryChars : Int) : Bytes :=
  if 0 < maxSummaryChars ∧ maxSummaryChars < text.length then text.take maxSummaryChars.toNat
  else text

def normalizeAndValidateRollingSummary (candidate : Bytes) (previous : Option Bytes)
    (maxSummaryChars : Int) : SummaryValidationResult :=
  let text := trim isSpace candidate
  if text.length < 40 then { reason := ascii "too_short" }
  else
    let ls := splitLinesTrimmed text
    if ls = [] then { reason := ascii "empty_lines" }
    else
      match draft ls with
      | none => { reason := ascii "low_signal" }
      | some d =>
        let normalized := truncated (summaryText d.buckets) maxSummaryChars
        let prevLen := (previous.getD []).length
        if previous.getD [] ≠ [] ∧ normalized.length < min 120 (prevLen / 2) then
          { reason := ascii "regressive_shrink" }
        else
          { accepted := true, summary := normalized, extractedItems := d.nonEmptyItems,
            usedFallbackSections := d.usedFallback }

/-! Bullets -/

/-- A line as the candidate is split into. -/
structure PlainLine (line : Bytes) : Prop where
  ne_nil : line ≠ []
  newline : (10 : UInt8) ∉ line
  carriage : (13 : UInt8) ∉ line
  trimmed : trim isSpace line = line

/-- A line of a section. -/
structure Bullet (line : Bytes) : Prop extends PlainLine line where
  marked : ascii "- " <+: line ∨ ascii "* " <+: line

theorem plainLine_of_mem {text line : Bytes} (h : line ∈ splitLinesTrimmed text) :
    PlainLine line := by
  obtain ⟨piece, hpiece, hnot, htrim⟩ := Pieces.lines_infix h
  have hsub : line ⊆ piece := by
    rw [← htrim]
    intro b hb
    rw [trim, List.mem_reverse] at hb
    have hmem := (List.dropWhile_suffix isSpace).subset hb
    exact (List.dropWhile_suffix isSpace).subset (List.mem_reverse.mp hmem)
  refine ⟨Pieces.ne_nil_of_mem_lines h, fun hmem => hnot (hsub hmem), fun hmem => ?_, ?_⟩
  · simpa using hpiece.subset (hsub hmem)
  · rw [← htrim, Pieces.trim_trim]

theorem bulletize_marked {line : Bytes} (hne : line ≠ [])
    (h : ascii "- " <+: line ∨ ascii "* " <+: line) : bulletize line = line := by
  unfold bulletize
  rw [if_neg hne, if_pos]
  simpa only [List.isPrefixOf_iff_prefix] using h

/-- A mark before a text that does not end with a blank. -/
theorem bullet_of_text {text : Bytes} (hne : text ≠ []) (hnewline : (10 : UInt8) ∉ text)
    (hcarriage : (13 : UInt8) ∉ text) (hlast : ∀ b ∈ text.getLast?, isSpace b = false) :
    Bullet (ascii "- " ++ text) := by
  have hmark : ascii "- " = [45, 32] := by decide
  refine ⟨⟨?_, ?_, ?_, ?_⟩, .inl (List.prefix_append _ _)⟩
  · simp [hmark]
  · simp [hmark, hnewline]
  · simp [hmark, hcarriage]
  · rw [Pieces.trim_eq_self_iff]
    refine ⟨?_, ?_⟩
    · rw [hmark]
      simp only [List.cons_append, List.head?_cons, Option.mem_some_iff, forall_eq']
      decide
    · rwa [List.getLast?_append_of_ne_nil _ hne]

theorem bullet_bulletize {line : Bytes} (h : PlainLine line) : Bullet (bulletize line) := by
  have hends := Pieces.trim_eq_self_iff.mp h.trimmed
  have hwhole : Bullet (ascii "- " ++ line) :=
    bullet_of_text h.ne_nil h.newline h.carriage hends.2
  by_cases hmarked : ascii "- " <+: line ∨ ascii "* " <+: line
  · rw [bulletize_marked h.ne_nil hmarked]
    exact ⟨h, hmarked⟩
  · have hnot : ¬ ((ascii "- ").isPrefixOf line = true ∨ (ascii "* ").isPrefixOf line = true) := by
      simpa only [List.isPrefixOf_iff_prefix] using hmarked
    unfold bulletize
    rw [if_neg h.ne_nil, if_neg hnot]
    split
    · rename_i digit rest
      split
      · have hlast := hends.2
        have hrest : rest ≠ [] := by
          rintro rfl
          exact absurd (hlast 32 rfl) (by decide)
        refine bullet_of_text hrest (fun hmem => h.newline ?_) (fun hmem => h.carriage ?_) ?_
        · simp [hmem]
        · simp [hmem]
        · intro b hb
          refine hlast b ?_
          obtain ⟨c, rest, rfl⟩ := List.exists_cons_of_ne_nil hrest
          simpa [List.getLast?_cons_cons] using hb
      · exact hwhole
    · exact hwhole

/-! Buckets -/

def Bullets (buckets : Buckets) : Prop := ∀ s, ∀ line ∈ buckets s, Bullet line

/-- Every bullet is made of a line. -/
def MadeOf (ls : List Bytes) (buckets : Buckets) : Prop :=
  ∀ s, ∀ bullet ∈ buckets s, ∃ line ∈ ls, bulletize line = bullet

theorem MadeOf.line {ls : List Bytes} {p : Pass} (h : MadeOf ls p.buckets) {line : Bytes}
    (hline : line ∈ ls) : MadeOf ls (p.line line).buckets := by
  unfold Pass.line
  split
  · exact h
  · split
    · exact h
    · rename_i s _
      dsimp only
      split
      · exact h
      · intro t b hb
        dsimp only at hb
        by_cases hts : t = s
        · subst hts
          rw [Function.update_self, List.mem_append, List.mem_singleton] at hb
          rcases hb with hb | rfl
          · exact h t b hb
          · exact ⟨line, hline, rfl⟩
        · rw [Function.update_of_ne hts] at hb
          exact h t b hb

theorem madeOf_firstPass (ls : List Bytes) : MadeOf ls (firstPass ls).buckets :=
  @List.foldlRecOn Pass Bytes (fun p => MadeOf ls p.buckets) ls Pass.line _
    (fun s line hline => by cases hline) fun p hp line hline => hp.line hline

theorem madeOf_handedOut {ls content : List Bytes} {buckets : Buckets} (h : MadeOf ls buckets)
    (hcontent : ∀ bullet ∈ content, ∃ line ∈ ls, bulletize line = bullet) :
    MadeOf ls (handedOut content buckets) := by
  intro s bullet hbullet
  rcases List.mem_append.mp hbullet with hbullet | hbullet
  · exact h s bullet hbullet
  · exact hcontent bullet (List.mem_of_mem_drop (List.mem_of_mem_take hbullet))

theorem exists_of_mem_contentLines {ls : List Bytes} {bullet : Bytes}
    (hb : bullet ∈ contentLines ls) : ∃ line ∈ ls, bulletize line = bullet := by
  obtain ⟨line, hline, heq⟩ := List.mem_map.mp (List.mem_of_mem_filter hb)
  exact ⟨line, List.mem_of_mem_filter hline, heq⟩

theorem madeOf_draft {ls : List Bytes} {d : Draft} (hd : draft ls = some d) :
    MadeOf ls d.buckets := by
  unfold draft at hd
  dsimp only at hd
  split at hd
  · split at hd
    · cases hd
    · cases hd
      exact madeOf_handedOut (madeOf_firstPass ls) fun _ => exists_of_mem_contentLines
  · cases hd
    exact madeOf_firstPass ls

theorem MadeOf.bullets {ls : List Bytes} {buckets : Buckets} (hmade : MadeOf ls buckets)
    (h : ∀ line ∈ ls, PlainLine line) : Bullets buckets := by
  intro s bullet hbullet
  obtain ⟨line, hline, rfl⟩ := hmade s bullet hbullet
  exact bullet_bulletize (h line hline)

theorem bullet_of_mem_contentLines {ls : List Bytes} (h : ∀ line ∈ ls, PlainLine line)
    {bullet : Bytes} (hb : bullet ∈ contentLines ls) : Bullet bullet := by
  obtain ⟨line, hline, rfl⟩ := exists_of_mem_contentLines hb
  exact bullet_bulletize (h line hline)

theorem bullets_draft {ls : List Bytes} (h : ∀ line ∈ ls, PlainLine line) {d : Draft}
    (hd : draft ls = some d) : Bullets d.buckets :=
  (madeOf_draft hd).bullets h

/-! The text of a summary -/

/-- The lines of a section in the text. -/
def shown (items : List Bytes) : List Bytes :=
  if items = [] then [ascii "- (none)"] else items.take 6

/-- The lines of the text, with the blank ones. -/
def textLines (bullets : Buckets) : List Bytes :=
  sections.flatMap fun s => s.heading :: bullets s ++ [[]]

theorem summaryText_eq (buckets : Buckets) :
    summaryText buckets =
      (textLines fun s => shown (buckets s)).flatMap fun line => line ++ [10] := by
  rw [summaryText, textLines, List.flatMap_assoc]
  refine List.flatMap_congr fun s _ => ?_
  have hnewline : ascii "\n" = [10] := by decide
  have hnone : ascii "- (none)\n\n" = ascii "- (none)" ++ [10] ++ [10] := by decide
  rw [sectionText, shown, hnewline]
  split
  · simp [hnone]
  · simp [List.flatMap_append]

/-- From one to six bullets under each heading. -/
structure Shown (bullets : Buckets) : Prop where
  ne_nil : ∀ s, bullets s ≠ []
  length_le : ∀ s, (bullets s).length ≤ 6
  bullet : Bullets bullets

theorem bullet_none : Bullet (ascii "- (none)") where
  ne_nil := by decide
  newline := by decide
  carriage := by decide
  trimmed := by decide
  marked := by decide

theorem shown_bullets {buckets : Buckets} (h : Bullets buckets) :
    Shown fun s => shown (buckets s) where
  ne_nil s := by
    unfold shown
    split
    · simp
    · rename_i hne
      simpa using hne
  length_le s := by
    unfold shown
    split
    · simp
    · exact List.length_take_le _ _
  bullet s line hline := by
    dsimp only [shown] at hline
    split at hline
    · exact List.mem_singleton.mp hline ▸ bullet_none
    · exact h s line (List.mem_of_mem_take hline)

theorem shown_shown {bullets : Buckets} (h : Shown bullets) :
    (fun s => shown (bullets s)) = bullets := by
  funext s
  rw [shown, if_neg (h.ne_nil s), List.take_of_length_le (h.length_le s)]

theorem heading_line (s : SummarySection) : PlainLine s.heading := by
  cases s <;> exact ⟨by decide, by decide, by decide, by decide⟩

theorem mem_textLines {bullets : Buckets} (h : Bullets bullets) {line : Bytes}
    (hline : line ∈ textLines bullets) : line = [] ∨ PlainLine line := by
  obtain ⟨s, -, hs⟩ := List.mem_flatMap.mp hline
  simp only [List.cons_append, List.mem_cons, List.mem_append, List.not_mem_nil, or_false] at hs
  rcases hs with rfl | hs | rfl
  · exact .inr (heading_line s)
  · exact .inr (h s line hs).toPlainLine
  · exact .inl rfl

/-- The text is split into its headings and bullets again. -/
theorem splitLinesTrimmed_text {bullets : Buckets} (h : Bullets bullets) :
    splitLinesTrimmed (trim isSpace ((textLines bullets).flatMap fun line => line ++ [10])) =
      sections.flatMap fun s => s.heading :: bullets s := by
  have hlines : ∀ line ∈ textLines bullets,
      (10 : UInt8) ∉ line ∧ (13 : UInt8) ∉ line ∧ trim isSpace line = line := by
    intro line hline
    rcases mem_textLines h hline with rfl | hplain
    · exact ⟨List.not_mem_nil, List.not_mem_nil, rfl⟩
    · exact ⟨hplain.newline, hplain.carriage, hplain.trimmed⟩
  have hreturn : ∀ b ∈ trim isSpace ((textLines bullets).flatMap fun line => line ++ [10]),
      decide (b ≠ 13) = true := by
    intro b hb
    rw [trim, List.mem_reverse] at hb
    have hmem := List.mem_reverse.mp ((List.dropWhile_suffix isSpace).subset hb)
    obtain ⟨line, hline, hb⟩ := List.mem_flatMap.mp ((List.dropWhile_suffix isSpace).subset hmem)
    refine decide_eq_true fun hb13 => ?_
    subst hb13
    rcases List.mem_append.mp hb with hb | hb
    · exact (hlines line hline).2.1 hb
    · exact absurd (List.mem_singleton.mp hb) (by decide)
  rw [splitLinesTrimmed, List.filter_eq_self.mpr hreturn, Pieces.lines_trim,
    Pieces.lines_flatMap fun line hline => ⟨(hlines line hline).1, (hlines line hline).2.2⟩,
    textLines, List.filter_flatMap]
  refine List.flatMap_congr fun s _ => ?_
  have hall : ∀ line ∈ s.heading :: bullets s, decide (line ≠ []) = true := by
    intro line hline
    rcases List.mem_cons.mp hline with rfl | hline
    · exact decide_eq_true (heading_line s).ne_nil
    · exact decide_eq_true (h s line hline).ne_nil
  rw [List.filter_append, List.filter_eq_self.mpr hall]
  simp

/-! A text that is read again -/

theorem heading?_heading (s : SummarySection) : heading? s.heading = some s := by
  cases s <;> decide

theorem heading?_bullet {line : Bytes} (h : Bullet line) : heading? line = none := by
  have hdash : ascii "- " = [45, 32] := by decide
  have hstar : ascii "* " = [42, 32] := by decide
  have hhead : line.head? ≠ some 35 := by
    rcases h.marked with ⟨rest, rfl⟩ | ⟨rest, rfl⟩
    · rw [hdash]
      simp
    · rw [hstar]
      simp
  rw [heading?, if_neg hhead]

theorem foldl_bullets {p : Pass} {s : SummarySection} (hcurrent : p.current = some s)
    {bullets : List Bytes} (h : ∀ line ∈ bullets, Bullet line) :
    bullets.foldl Pass.line p =
      ⟨some s, Function.update p.buckets s (p.buckets s ++ bullets),
        p.nonEmptyItems + bullets.length, p.sectionHeadersFound⟩ := by
  induction bullets generalizing p with
  | nil =>
    rw [List.foldl_nil, List.append_nil, Function.update_eq_self, ← hcurrent]
    rfl
  | cons line bullets ih =>
    rw [List.forall_mem_cons] at h
    have hbullet : bulletize line = line := bulletize_marked h.1.ne_nil h.1.marked
    have hline : p.line line = ⟨some s, Function.update p.buckets s (p.buckets s ++ [line]),
        p.nonEmptyItems + 1, p.sectionHeadersFound⟩ := by
      unfold Pass.line
      rw [heading?_bullet h.1, hcurrent]
      dsimp only
      rw [hbullet, if_neg h.1.ne_nil, ← hcurrent]
    rw [List.foldl_cons, hline, ih rfl h.2]
    simp only [Function.update_self, Function.update_idem, List.append_assoc,
      List.singleton_append, List.length_cons]
    congr 1
    omega

/-- A section of the text, read. -/
theorem foldl_section (p : Pass) (s : SummarySection) {bullets : List Bytes}
    (h : ∀ line ∈ bullets, Bullet line) :
    (s.heading :: bullets).foldl Pass.line p =
      ⟨some s, Function.update p.buckets s (p.buckets s ++ bullets),
        p.nonEmptyItems + bullets.length, p.sectionHeadersFound + 1⟩ := by
  have hheading : p.line s.heading =
      { p with current := some s, sectionHeadersFound := p.sectionHeadersFound + 1 } := by
    unfold Pass.line
    rw [heading?_heading]
  rw [List.foldl_cons, hheading, foldl_bullets rfl h]

theorem draft_text {bullets : Buckets} (h : Shown bullets) :
    ∃ items, draft (sections.flatMap fun s => s.heading :: bullets s) =
      some ⟨bullets, items, false⟩ := by
  have hpass : firstPass (sections.flatMap fun s => s.heading :: bullets s) =
      ⟨some .nextActions, bullets, (bullets .decisions).length + (bullets .constraints).length +
        (bullets .openQuestions).length + (bullets .nextActions).length, 4⟩ := by
    simp only [firstPass, sections, List.flatMap_cons, List.flatMap_nil, List.append_nil,
      List.foldl_append, foldl_section _ _ (h.bullet _), Nat.zero_add, List.nil_append]
    congr 1
    funext s
    cases s <;> simp [Function.update]
  have hpos : ∀ s, 0 < (bullets s).length := fun s => List.length_pos_iff.mpr (h.ne_nil s)
  have hfirst := hpos .decisions
  have hsecond := hpos .constraints
  have hmany : ¬ ((bullets .decisions).length + (bullets .constraints).length +
      (bullets .openQuestions).length + (bullets .nextActions).length < 2 ∨ 4 < 2) := by
    omega
  refine ⟨(bullets .decisions).length + (bullets .constraints).length +
    (bullets .openQuestions).length + (bullets .nextActions).length, ?_⟩
  rw [draft, hpass]
  exact if_neg hmany

/-- The headings alone are long enough. -/
theorem long_text (bullets : Buckets) :
    40 ≤ (trim isSpace ((textLines bullets).flatMap fun line => line ++ [10])).length := by
  let front := SummarySection.decisions.heading ++ [10] ++
    (bullets .decisions).flatMap (fun line => line ++ [10]) ++ [10] ++
    SummarySection.constraints.heading ++ [10] ++
    (bullets .constraints).flatMap (fun line => line ++ [10]) ++ [10] ++
    SummarySection.openQuestions.heading
  let back := [10] ++ (bullets .openQuestions).flatMap (fun line => line ++ [10]) ++ [10] ++
    SummarySection.nextActions.heading ++ [10] ++
    (bullets .nextActions).flatMap (fun line => line ++ [10]) ++ [10]
  have htext : ((textLines bullets).flatMap fun line => line ++ [10]) = front ++ back := by
    simp [textLines, sections, front, back, List.flatMap_append]
  have hdecisions : SummarySection.decisions.heading = 35 :: (ascii "# Decisions") := by decide
  have hhead : ∀ a ∈ front.head?, isSpace a = false := by
    intro a ha
    simp only [front, hdecisions, List.cons_append, List.head?_cons, Option.mem_some_iff] at ha
    rw [← ha]
    decide
  have hlast : ∀ a ∈ front.getLast?, isSpace a = false := by
    intro a ha
    rw [List.getLast?_append_of_ne_nil _ (by decide)] at ha
    exact (Pieces.trim_eq_self_iff.mp (heading_line .openQuestions).trimmed).2 a ha
  have hlength : 40 ≤ front.length := by
    have h1 : SummarySection.decisions.heading.length = 12 := by decide
    have h2 : SummarySection.constraints.heading.length = 14 := by decide
    have h3 : SummarySection.openQuestions.heading.length = 17 := by decide
    simp only [front, List.length_append, h1, h2, h3]
    omega
  rw [htext]
  exact Nat.le_trans hlength (Pieces.length_le_trim hhead hlast back)

/-- The text of bullets under the four headings is what it is normalised to. -/
theorem normalize_text {bullets : Buckets} (h : Shown bullets) {maxSummaryChars : Int}
    (hlimit : maxSummaryChars ≤ 0 ∨ (summaryText bullets).length ≤ maxSummaryChars) :
    (normalizeAndValidateRollingSummary (summaryText bullets) none maxSummaryChars).accepted = true ∧
      (normalizeAndValidateRollingSummary (summaryText bullets) none maxSummaryChars).summary =
        summaryText bullets := by
  have htext : summaryText bullets = (textLines bullets).flatMap fun line => line ++ [10] := by
    rw [summaryText_eq, shown_shown h]
  obtain ⟨items, hdraft⟩ := draft_text h
  have hlines := splitLinesTrimmed_text h.bullet
  rw [← htext] at hlines
  have hne : (sections.flatMap fun s => s.heading :: bullets s) ≠ [] := by simp [sections]
  have hwhole : truncated (summaryText bullets) maxSummaryChars = summaryText bullets := by
    rw [truncated, if_neg]
    omega
  have hnormal : normalizeAndValidateRollingSummary (summaryText bullets) none maxSummaryChars =
      { accepted := true, summary := summaryText bullets, extractedItems := items,
        usedFallbackSections := false } := by
    unfold normalizeAndValidateRollingSummary
    dsimp only
    rw [if_neg (by rw [htext]; exact Nat.not_lt.mpr (long_text bullets)), hlines, if_neg hne,
      hdraft]
    dsimp only
    rw [hwhole, if_neg (by simp)]
  rw [hnormal]
  exact ⟨rfl, rfl⟩

/-- What an accepted candidate comes to. -/
theorem accepted_draft {candidate : Bytes} {previous : Option Bytes} {maxSummaryChars : Int}
    (h : (normalizeAndValidateRollingSummary candidate previous maxSummaryChars).accepted = true) :
    ∃ d, draft (splitLinesTrimmed (trim isSpace candidate)) = some d ∧
      (normalizeAndValidateRollingSummary candidate previous maxSummaryChars).summary =
        truncated (summaryText d.buckets) maxSummaryChars ∧
      (normalizeAndValidateRollingSummary candidate previous maxSummaryChars).usedFallbackSections =
        d.usedFallback := by
  unfold normalizeAndValidateRollingSummary at h ⊢
  dsimp only at h ⊢
  split at h
  · cases h
  · rename_i hlong
    rw [if_neg hlong]
    split at h
    · cases h
    · rename_i hlines
      rw [if_neg hlines]
      split at h
      · cases h
      · rename_i d hd
        split at h
        · cases h
        · rename_i hkept
          rw [hd, if_neg hkept]
          exact ⟨d, rfl, rfl, rfl⟩

/-- The candidate is accepted, and as it is without a limit. -/
structure AcceptedWhole (candidate : Bytes) (previous : Option Bytes) (maxSummaryChars : Int) :
    Prop where
  accepted : (normalizeAndValidateRollingSummary candidate previous maxSummaryChars).accepted = true
  whole : normalizeAndValidateRollingSummary candidate previous maxSummaryChars =
    normalizeAndValidateRollingSummary candidate previous 0

/-- A summary that is accepted whole has the four headings with one to six bullets each, and it is
normalised to itself, within the same limit and any other that it fits. -/
theorem summary_normal {candidate : Bytes} {previous : Option Bytes} {maxSummaryChars : Int}
    (h : AcceptedWhole candidate previous maxSummaryChars) {summary : Bytes}
    (hsummary : (normalizeAndValidateRollingSummary candidate previous maxSummaryChars).summary =
      summary) :
    (∃ bullets, Shown bullets ∧ summary = sections.flatMap fun s => s.heading ++ ascii "\n" ++
      (bullets s).flatMap (fun line => line ++ ascii "\n") ++ ascii "\n") ∧
    ∀ limit : Int, limit = maxSummaryChars ∨ limit ≤ 0 ∨ summary.length ≤ limit →
      (normalizeAndValidateRollingSummary summary none limit).accepted = true ∧
        (normalizeAndValidateRollingSummary summary none limit).summary = summary := by
  obtain ⟨d, hdraft, htext, -⟩ := accepted_draft h.accepted
  obtain ⟨e, hdraft', htext', -⟩ := accepted_draft (h.whole ▸ h.accepted)
  cases hdraft.symm.trans hdraft'
  have hbullets := bullets_draft (fun line => plainLine_of_mem) hdraft
  have hwhole : summary = summaryText d.buckets := by
    rw [← hsummary, h.whole, htext', truncated, if_neg (by omega)]
  have hshown : summaryText d.buckets = summaryText fun s => shown (d.buckets s) := by
    rw [summaryText_eq, summaryText_eq, shown_shown (shown_bullets hbullets)]
  have hfits : maxSummaryChars ≤ 0 ∨ summary.length ≤ maxSummaryChars := by
    rw [← hsummary, htext, truncated]
    split
    · rename_i hcut
      rw [List.length_take]
      omega
    · omega
  refine ⟨⟨_, shown_bullets hbullets, ?_⟩, fun limit hlimit => ?_⟩
  · rw [hwhole, summaryText_eq, textLines, List.flatMap_assoc]
    refine List.flatMap_congr fun s _ => ?_
    have hnewline : ascii "\n" = [10] := by decide
    rw [hnewline]
    simp [List.flatMap_append]
  · rw [hwhole, hshown] at hfits ⊢
    refine normalize_text (shown_bullets hbullets) ?_
    rcases hlimit with rfl | hlimit
    · exact hfits
    · rwa [hwhole, hshown] at hlimit

def decisions : Bytes :=
  ascii "## Decisions\n1. Keep retries bounded.\n## Constraints\nNo yaml edits by users.\n"

theorem summary_normal_decisions :
    (∃ bullets, Shown bullets ∧
      (normalizeAndValidateRollingSummary decisions none 2000).summary =
        sections.flatMap fun s => s.heading ++ ascii "\n" ++
          (bullets s).flatMap (fun line => line ++ ascii "\n") ++ ascii "\n") ∧
    ∀ limit : Int, limit = 2000 ∨ limit ≤ 0 ∨
        (normalizeAndValidateRollingSummary decisions none 2000).summary.length ≤ limit →
      (normalizeAndValidateRollingSummary
        (normalizeAndValidateRollingSummary decisions none 2000).summary none limit).accepted =
          true ∧
      (normalizeAndValidateRollingSummary
        (normalizeAndValidateRollingSummary decisions none 2000).summary none limit).summary =
          (normalizeAndValidateRollingSummary decisions none 2000).summary :=
  summary_normal ⟨by decide +kernel, by decide +kernel⟩ rfl

/-! Lines that are handed out -/

/-- The bullets of the lines that stand under the headings of a section, `current` being the
section of the last heading. -/
def under (s : SummarySection) : Option SummarySection → List Bytes → List Bytes
  | _, [] => []
  | current, line :: ls =>
    match heading? line with
    | some t => under s (some t) ls
    | none => if current = some s then bulletize line :: under s current ls else under s current ls

theorem buckets_foldl {ls : List Bytes} (h : ∀ line ∈ ls, PlainLine line) (p : Pass)
    (s : SummarySection) :
    (ls.foldl Pass.line p).buckets s = p.buckets s ++ under s p.current ls := by
  induction ls generalizing p with
  | nil => simp [under]
  | cons line ls ih =>
    rw [List.forall_mem_cons] at h
    have hne : bulletize line ≠ [] := (bullet_bulletize h.1).ne_nil
    rw [List.foldl_cons, ih h.2, under]
    unfold Pass.line
    cases heading? line with
    | some t => rfl
    | none =>
      cases hcurrent : p.current with
      | none => simp [hcurrent]
      | some t =>
        dsimp only
        rw [if_neg hne]
        dsimp only
        by_cases hts : t = s
        · subst hts
          rw [Function.update_self, if_pos rfl, List.append_assoc, List.singleton_append]
        · rw [Function.update_of_ne (Ne.symm hts), if_neg (by simpa using hts)]

/-- The lines of a candidate. -/
def candidateLines (candidate : Bytes) : List Bytes := splitLinesTrimmed (trim isSpace candidate)

/-- The text with three lines of the candidate for each section. -/
def fallbackText (candidate : Bytes) : Bytes :=
  summaryText (handedOut (contentLines (candidateLines candidate)) fun _ => [])

/-- No line stands under a heading that is recognised, unless it is a single `- (none)`, which the
section has anyway. -/
def NoItems (candidate : Bytes) : Prop :=
  ∀ s, under s none (candidateLines candidate) = [] ∨
    under s none (candidateLines candidate) = [ascii "- (none)"] ∧
      (contentLines (candidateLines candidate)).length ≤ 3 * s.index

/-- The bullets of the sections are the first twelve lines. -/
theorem handedOut_flatMap (content : List Bytes) :
    sections.flatMap (handedOut content fun _ => []) = content.take 12 := by
  have hstep : ∀ n : Nat, content.take (n + 3) = content.take n ++ (content.drop n).take 3 :=
    fun n => List.take_add
  have h12 := hstep 9
  have h9 := hstep 6
  have h6 := hstep 3
  rw [h12, h9, h6]
  simp [sections, handedOut, SummarySection.index, List.append_assoc]

/-- Texts of bullets, one of which goes on from the other, are of the same bullets. -/
theorem bullets_of_prefix {bullets others : Buckets} (h : Bullets bullets) (ho : Bullets others)
    (hpre : ((textLines bullets).flatMap fun line => line ++ [10]) <+:
      (textLines others).flatMap fun line => line ++ [10]) : bullets = others := by
  have hnewline : ∀ b : Buckets, Bullets b → ∀ line ∈ textLines b, (10 : UInt8) ∉ line := by
    intro b hb line hline
    rcases mem_textLines hb hline with rfl | hplain
    · exact List.not_mem_nil
    · exact hplain.newline
  have hlines := Pieces.prefix_of_flatMap (hnewline _ h) (hnewline _ ho) hpre
  have hblank : ∀ b : Buckets, Bullets b → ∀ group ∈ sections.map fun s => s.heading :: b s,
      ([] : Bytes) ∉ group := by
    intro b hb group hgroup hmem
    obtain ⟨s, -, rfl⟩ := List.mem_map.mp hgroup
    rcases List.mem_cons.mp hmem with heq | hmem
    · exact (heading_line s).ne_nil heq.symm
    · exact (hb s _ hmem).ne_nil rfl
  have hgroups : (sections.map fun s => s.heading :: bullets s) <+:
      sections.map fun s => s.heading :: others s := by
    refine Pieces.prefix_of_flatMap (hblank _ h) (hblank _ ho) ?_
    simpa only [List.flatMap_map, textLines] using hlines
  have hsame := hgroups.eq_of_length (by simp)
  funext s
  have hs : s.heading :: bullets s = s.heading :: others s :=
    List.map_inj_left.mp hsame s (by cases s <;> decide)
  exact (List.cons.inj hs).2

/-- A section shows what is handed out to it and no more. -/
theorem shown_append_iff {items more : List Bytes} (hmore : more.length ≤ 3) :
    shown (items ++ more) = shown more ↔
      items = [] ∨ items = [ascii "- (none)"] ∧ more = [] := by
  cases items with
  | nil => simp
  | cons item items =>
    have hne : ¬ (item :: items = []) := List.cons_ne_nil _ _
    rw [shown, if_neg (by simp)]
    cases more with
    | nil =>
      rw [List.append_nil, shown, if_pos rfl]
      constructor
      · intro h
        have hlength := congrArg List.length h
        rw [List.length_take, List.length_singleton] at hlength
        rw [List.take_of_length_le (by omega)] at h
        exact .inr ⟨h, rfl⟩
      · rintro (h | ⟨h, -⟩)
        · exact absurd h hne
        · rw [h]
          rfl
    | cons first more =>
      rw [shown, if_neg (by simp)]
      refine iff_of_false (fun h => ?_) (by simp)
      have hlength := congrArg List.length h
      simp only [List.length_take, List.length_append, List.length_cons] at hlength hmore
      omega

def unstructured : Bytes := ascii "Keep cloud-first fallback.\nDo not require yaml edits by users.\n"

end RollingSummary

end HolderDaemon
