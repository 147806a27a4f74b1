import HolderDaemon.Pieces

/-!
Request heads on the wire: how a head is written, and what a receiver reads that takes lines to
their CR LF and allows neither byte elsewhere.
-/

set_option autoImplicit false

namespace RequestHead

open Pieces (trim)

abbrev Octets := List UInt8

/-- Joined, the first stands alone and each other one after its separator. -/
theorem intercalate_cons {α : Type} (sep : α) (first : List α) (others : List (List α)) :
    [sep].intercalate (first :: others) = first ++ others.flatMap fun s => sep :: s := by
  induction others generalizing first with
  | nil => simp
  | cons second others ih =>
    rw [List.intercalate_cons_cons, ih second]
    simp

/-! Words -/

section Words
variable {α : Type} (blank : α → Bool)

/-- What stands between the blanks. -/
def words (s : List α) : List (List α) := (s.splitOnP blank).filter fun word => word ≠ []

variable {blank}

theorem words_cons_blank {a : α} (h : blank a = true) (s : List α) :
    words blank (a :: s) = words blank s := by
  rw [words, List.splitOnP_cons_eq_if_modifyHead, if_pos h]
  rfl

theorem words_blank_append {s : List α} (h : s.all blank = true) (t : List α) :
    words blank (s ++ t) = words blank t := by
  induction s with
  | nil => rfl
  | cons a s ih =>
    rw [List.all_cons, Bool.and_eq_true] at h
    rw [List.cons_append, words_cons_blank h.1, ih h.2]

/-- Blanks at the end change neither the first piece nor the words after it. -/
theorem splitOnP_append_blank {t : List α} (h : t.all blank = true) (s : List α) :
    ∃ head rest rest', (s ++ t).splitOnP blank = head :: rest ∧ s.splitOnP blank = head :: rest' ∧
      (rest.filter fun word => word ≠ []) = rest'.filter fun word => word ≠ [] := by
  induction s with
  | nil =>
    cases t with
    | nil => exact ⟨[], [], [], rfl, rfl, rfl⟩
    | cons a t =>
      have hwords : words blank (a :: t) = words blank [] := by
        rw [← words_blank_append h [], List.append_nil]
      rw [List.all_cons, Bool.and_eq_true] at h
      rw [words, List.splitOnP_cons_eq_if_modifyHead, if_pos h.1] at hwords
      refine ⟨[], t.splitOnP blank, [], ?_, rfl, by simpa [words] using hwords⟩
      rw [List.nil_append, List.splitOnP_cons_eq_if_modifyHead, if_pos h.1]
  | cons a s ih =>
    obtain ⟨head, rest, rest', hlong, hshort, hsame⟩ := ih
    rw [List.cons_append, List.splitOnP_cons_eq_if_modifyHead, List.splitOnP_cons_eq_if_modifyHead,
      hlong, hshort]
    split
    · refine ⟨[], head :: rest, head :: rest', rfl, rfl, ?_⟩
      rw [List.filter_cons, List.filter_cons, hsame]
    · exact ⟨a :: head, rest, rest', rfl, rfl, hsame⟩

theorem words_append_blank {t : List α} (h : t.all blank = true) (s : List α) :
    words blank (s ++ t) = words blank s := by
  obtain ⟨head, rest, rest', hlong, hshort, hsame⟩ := splitOnP_append_blank h s
  rw [words, words, hlong, hshort, List.filter_cons, List.filter_cons, hsame]

/-- A text without blanks at its ends, and those blanks. -/
theorem exists_trim (ends : α → Bool) (s : List α) :
    ∃ before after, s = before ++ trim ends s ++ after ∧ before.all ends = true ∧
      after.all ends = true := by
  refine ⟨s.takeWhile ends, ((s.dropWhile ends).reverse.takeWhile ends).reverse, ?_, ?_, ?_⟩
  · have hback := List.takeWhile_append_dropWhile (p := ends) (l := (s.dropWhile ends).reverse)
    have hdrop := congrArg List.reverse hback
    rw [List.reverse_append, List.reverse_reverse] at hdrop
    rw [trim, List.append_assoc, hdrop, List.takeWhile_append_dropWhile]
  · exact List.all_takeWhile
  · rw [List.all_reverse]
    exact List.all_takeWhile

/-- Trimmed of some of its blanks a text has the same words. -/
theorem words_trim {ends : α → Bool} (h : ∀ a, ends a = true → blank a = true) (s : List α) :
    words blank (trim ends s) = words blank s := by
  have hall : ∀ t : List α, t.all ends = true → t.all blank = true := by
    intro t ht
    exact List.all_eq_true.mpr fun a ha => h a (List.all_eq_true.mp ht a ha)
  obtain ⟨before, after, hs, hbefore, hafter⟩ := exists_trim ends s
  conv_rhs => rw [hs]
  rw [words_append_blank (hall after hafter), words_blank_append (hall before hbefore)]

end Words

/-! Lines -/

/-- Neither CR nor LF. -/
def LineFree (s : Octets) : Prop := 13 ∉ s ∧ 10 ∉ s

instance (s : Octets) : Decidable (LineFree s) := inferInstanceAs (Decidable (_ ∧ _))

theorem lineFree_append {s t : Octets} : LineFree (s ++ t) ↔ LineFree s ∧ LineFree t := by
  simp only [LineFree, List.mem_append, not_or]
  exact and_and_and_comm

theorem LineFree.append {s t : Octets} (hs : LineFree s) (ht : LineFree t) : LineFree (s ++ t) :=
  lineFree_append.mpr ⟨hs, ht⟩

theorem LineFree.of_subset {s t : Octets} (h : LineFree t) (hsub : s ⊆ t) : LineFree s :=
  ⟨fun hmem => h.1 (hsub hmem), fun hmem => h.2 (hsub hmem)⟩

def crlf : Octets := [13, 10]

/-- A line to its end. -/
def readLine : Octets → Option (Octets × Octets)
  | [] => none
  | [_] => none
  | b :: c :: rest =>
    if b = 13 ∧ c = 10 then some ([], rest)
    else if b = 13 ∨ b = 10 then none
    else (readLine (c :: rest)).map fun p => (b :: p.1, p.2)

theorem readLine_line {line : Octets} (h : LineFree line) (rest : Octets) :
    readLine (line ++ crlf ++ rest) = some (line, rest) := by
  induction line with
  | nil => rfl
  | cons b line ih =>
    have hb : ¬ (b = 13 ∨ b = 10) := by
      rintro (rfl | rfl)
      · exact h.1 List.mem_cons_self
      · exact h.2 List.mem_cons_self
    have hcr : ∀ c : UInt8, ¬ (b = 13 ∧ c = 10) := fun c hc => hb (.inl hc.1)
    have htail := ih (h.of_subset (List.subset_cons_self b line))
    cases line with
    | nil =>
      change readLine (b :: 13 :: 10 :: rest) = some ([b], rest)
      rw [readLine, if_neg (hcr 13), if_neg hb]
      rfl
    | cons c line =>
      rw [List.cons_append, List.cons_append] at htail
      rw [List.cons_append, List.cons_append, List.cons_append, List.cons_append, readLine,
        if_neg (hcr c), if_neg hb, htail]
      rfl

theorem lineFree_of_readLine {s line rest : Octets} (h : readLine s = some (line, rest)) :
    LineFree line := by
  induction s using readLine.induct generalizing line with
  | case1 => cases h
  | case2 b => cases h
  | case3 b c tail hend =>
    rw [readLine, if_pos hend] at h
    cases h
    exact ⟨List.not_mem_nil, List.not_mem_nil⟩
  | case4 b c tail hend hbad =>
    rw [readLine, if_neg hend, if_pos hbad] at h
    cases h
  | case5 b c tail hend hbad ih =>
    rw [readLine, if_neg hend, if_neg hbad] at h
    obtain ⟨⟨first, after⟩, hread, hpair⟩ := Option.map_eq_some_iff.mp h
    cases hpair
    rw [not_or] at hbad
    have hfirst := ih hread
    refine ⟨fun hmem => ?_, fun hmem => ?_⟩
    · rcases List.mem_cons.mp hmem with heq | hin
      · exact hbad.1 heq.symm
      · exact hfirst.1 hin
    · rcases List.mem_cons.mp hmem with heq | hin
      · exact hbad.2 heq.symm
      · exact hfirst.2 hin

/-! Heads -/

structure Head where
  method : Octets
  target : Octets
  fields : List (Octets × Octets)
  deriving DecidableEq

/-- HTTP/1.1. -/
def version : Octets := [72, 84, 84, 80, 47, 49, 46, 49]

def fieldLine (field : Octets × Octets) : Octets := field.1 ++ [58, 32] ++ field.2

def startLine (r : Head) : Octets := r.method ++ [32] ++ r.target ++ [32] ++ version

/-- The head as it is written. -/
def Head.written (r : Head) : Octets :=
  startLine r ++ crlf ++ (r.fields.flatMap fun field => fieldLine field ++ crlf) ++ crlf

def lower (s : Octets) : Octets := s.map fun b => if 65 ≤ b ∧ b ≤ 90 then b + 32 else b

def isOws (b : UInt8) : Bool := b = 32 || b = 9

/-- Letters, digits, and the hyphen: what names are made of here. -/
def isNameByte (b : UInt8) : Bool :=
  (48 ≤ b && b ≤ 57) || (65 ≤ b && b ≤ 90) || (97 ≤ b && b ≤ 122) || b = 45

def isName (s : Octets) : Bool := s ≠ [] && s.all isNameByte

def parseStart (line : Octets) : Option (Octets × Octets) :=
  match line.splitOn 32 with
  | [method, target, v] =>
    if method ≠ [] ∧ target ≠ [] ∧ v = version then some (method, target) else none
  | _ => none

/-- The name is up to the first colon. -/
def parseField (line : Octets) : Option (Octets × Octets) :=
  let name := line.takeWhile fun b => b ≠ 58
  match line.dropWhile fun b => b ≠ 58 with
  | [] => none
  | _ :: value => if isName name then some (lower name, trim isOws value) else none

/-- The fields up to the empty line, over at most `n` lines. -/
def readFields : Nat → Octets → Option (List (Octets × Octets) × Octets)
  | 0, _ => none
  | n + 1, s => do
    let (line, rest) ← readLine s
    if line = [] then some ([], rest)
    else
      let field ← parseField line
      let (fields, rest) ← readFields n rest
      some (field :: fields, rest)

/-- A head with what follows it. -/
def receive (s : Octets) : Option (Head × Octets) := do
  let (line, rest) ← readLine s
  let (method, target) ← parseStart line
  let (fields, rest) ← readFields rest.length rest
  some (⟨method, target, fields⟩, rest)

/-- The head as it is read. -/
def Head.asRead (r : Head) : Head :=
  { r with fields := r.fields.map fun field => (lower field.1, trim isOws field.2) }

/-- A word of the start line. -/
structure Word (s : Octets) : Prop where
  ne_nil : s ≠ []
  noBlank : 32 ∉ s
  lineFree : LineFree s

/-- All but the values is as a head has it. -/
structure Sendable (r : Head) : Prop where
  method : Word r.method
  target : Word r.target
  names : ∀ field ∈ r.fields, isName field.1 = true

theorem lineFree_version : LineFree version := by decide

theorem parseStart_startLine {r : Head} (h : Sendable r) :
    parseStart (startLine r) = some (r.method, r.target) := by
  have hsplit : (startLine r).splitOn 32 = [r.method, r.target, version] := by
    have hjoin : startLine r = [32].intercalate [r.method, r.target, version] := by
      simp [startLine, List.intercalate]
    rw [hjoin]
    refine List.splitOn_intercalate _ ?_ (List.cons_ne_nil _ _)
    intro s hs
    rcases List.mem_cons.mp hs with rfl | hs
    · exact h.method.noBlank
    · rcases List.mem_cons.mp hs with rfl | hs
      · exact h.target.noBlank
      · rw [List.mem_singleton.mp hs]
        decide
  rw [parseStart, hsplit]
  exact if_pos ⟨h.method.ne_nil, h.target.ne_nil, rfl⟩

theorem notMem_of_isName {name : Octets} (h : isName name = true) {b : UInt8}
    (hb : isNameByte b = false) : b ∉ name := by
  intro hmem
  rw [isName, Bool.and_eq_true] at h
  rw [List.all_eq_true.mp h.2 b hmem] at hb
  cases hb

theorem parseField_fieldLine {field : Octets × Octets} (h : isName field.1 = true) :
    parseField (fieldLine field) = some (lower field.1, trim isOws field.2) := by
  have hcolon : ∀ b ∈ field.1, (decide (b ≠ 58)) = true := by
    intro b hb
    refine decide_eq_true fun heq => notMem_of_isName h (by decide : isNameByte 58 = false) ?_
    rwa [← heq]
  have hline : fieldLine field = field.1 ++ 58 :: 32 :: field.2 := by simp [fieldLine]
  have hname : (fieldLine field).takeWhile (fun b => b ≠ 58) = field.1 := by
    rw [hline, List.takeWhile_append_of_pos hcolon]
    simp
  have hvalue : (fieldLine field).dropWhile (fun b => b ≠ 58) = 58 :: 32 :: field.2 := by
    rw [hline, List.dropWhile_append_of_pos hcolon]
    simp
  rw [parseField, hname, hvalue]
  have hows : trim isOws (32 :: field.2) = trim isOws field.2 :=
    Pieces.trim_blank_append (s := [32]) rfl field.2
  dsimp only
  rw [if_pos h, hows]

theorem lineFree_fieldLine {field : Octets × Octets} (h : isName field.1 = true)
    (hv : LineFree field.2) : LineFree (fieldLine field) := by
  have hname : LineFree field.1 :=
    ⟨notMem_of_isName h (by decide), notMem_of_isName h (by decide)⟩
  exact (hname.append (by decide : LineFree [58, 32])).append hv

theorem readFields_fields {fields : List (Octets × Octets)}
    (hnames : ∀ field ∈ fields, isName field.1 = true)
    (hvalues : ∀ field ∈ fields, LineFree field.2)
    {n : Nat} (hn : fields.length < n) (rest : Octets) :
    readFields n ((fields.flatMap fun field => fieldLine field ++ crlf) ++ crlf ++ rest) =
      some (fields.map fun field => (lower field.1, trim isOws field.2), rest) := by
  induction fields generalizing n with
  | nil =>
    obtain ⟨m, rfl⟩ : ∃ m, n = m + 1 := ⟨n - 1, by omega⟩
    have hread : readLine ([] ++ crlf ++ rest) = some ([], rest) :=
      readLine_line ⟨List.not_mem_nil, List.not_mem_nil⟩ rest
    rw [List.flatMap_nil, readFields, hread]
    rfl
  | cons field fields ih =>
    obtain ⟨m, rfl⟩ : ∃ m, n = m + 1 := ⟨n - 1, by omega⟩
    rw [List.length_cons] at hn
    have hname := hnames field List.mem_cons_self
    have hline := lineFree_fieldLine hname (hvalues field List.mem_cons_self)
    have hrest := ih (fun f hf => hnames f (List.mem_cons_of_mem field hf))
      (fun f hf => hvalues f (List.mem_cons_of_mem field hf)) (n := m) (by omega)
    have hne : fieldLine field ≠ [] := by simp [fieldLine]
    have hread := readLine_line hline
      ((fields.flatMap fun field => fieldLine field ++ crlf) ++ crlf ++ rest)
    simp only [List.append_assoc] at hread hrest
    rw [List.flatMap_cons]
    simp only [List.append_assoc, readFields]
    rw [hread]
    simp only [Option.bind_eq_bind, Option.bind_some, if_neg hne, parseField_fieldLine hname, hrest]
    rfl

/-- A head whose values have no line end is read as it was written. -/
theorem receive_head {r : Head} (h : Sendable r) (hvalues : ∀ field ∈ r.fields, LineFree field.2)
    (body : Octets) : receive (r.written ++ body) = some (r.asRead, body) := by
  have hstart : LineFree (startLine r) :=
    (((h.method.lineFree.append (by decide : LineFree [32])).append h.target.lineFree).append
      (by decide : LineFree [32])).append lineFree_version
  have hread := readLine_line hstart
    ((r.fields.flatMap fun field => fieldLine field ++ crlf) ++ crlf ++ body)
  have hlength : r.fields.length <
      ((r.fields.flatMap fun field => fieldLine field ++ crlf) ++ crlf ++ body).length := by
    have hle : r.fields.length ≤
        (r.fields.flatMap fun field => fieldLine field ++ crlf).length := by
      rw [List.length_flatMap]
      refine le_trans ?_ (List.card_nsmul_le_sum _ 1 ?_)
      · simp
      · intro k hk
        obtain ⟨field, _, rfl⟩ := List.mem_map.mp hk
        simp [crlf]
    have hend : crlf.length = 2 := rfl
    rw [List.length_append, List.length_append]
    omega
  have hfields := readFields_fields h.names hvalues hlength body
  simp only [List.append_assoc] at hread hfields
  rw [receive, Head.written]
  simp only [List.append_assoc]
  rw [hread]
  simp only [Option.bind_eq_bind, Option.bind_some, parseStart_startLine h, hfields]
  rfl

/-! What is read -/

theorem lineFree_trim (s : Octets) : LineFree (trim isOws s) ↔ LineFree s := by
  obtain ⟨before, after, hs, hbefore, hafter⟩ := exists_trim isOws s
  have hblank : ∀ t : Octets, t.all isOws = true → LineFree t := by
    intro t ht
    have hall := List.all_eq_true.mp ht
    exact ⟨fun hmem => by simpa [isOws] using hall 13 hmem,
      fun hmem => by simpa [isOws] using hall 10 hmem⟩
  constructor
  · intro h
    rw [hs]
    exact ((hblank before hbefore).append h).append (hblank after hafter)
  · intro h
    rw [hs] at h
    exact h.of_subset fun b hb => List.mem_append_left after (List.mem_append_right before hb)

theorem lineFree_of_parseField {line : Octets} (h : LineFree line) {field : Octets × Octets}
    (hf : parseField line = some field) : LineFree field.2 := by
  unfold parseField at hf
  dsimp only at hf
  split at hf
  · cases hf
  · rename_i colon value hrest
    split at hf
    · cases hf
      refine (lineFree_trim value).mpr (h.of_subset fun b hb => ?_)
      have hmem : b ∈ line.dropWhile fun b => b ≠ 58 := by
        rw [hrest]
        exact List.mem_cons_of_mem colon hb
      exact (List.dropWhile_sublist _).subset hmem
    · cases hf

theorem lineFree_of_readFields {n : Nat} {s rest : Octets} {fields : List (Octets × Octets)}
    (h : readFields n s = some (fields, rest)) : ∀ field ∈ fields, LineFree field.2 := by
  induction n generalizing s fields with
  | zero => cases h
  | succ n ih =>
    rw [readFields, Option.bind_eq_bind, Option.bind_eq_some_iff] at h
    obtain ⟨⟨line, after⟩, hline, h⟩ := h
    dsimp only at h
    split at h
    · cases h
      exact fun field hf => by cases hf
    · rw [Option.bind_eq_some_iff] at h
      obtain ⟨first, hfirst, h⟩ := h
      rw [Option.bind_eq_bind, Option.bind_eq_some_iff] at h
      obtain ⟨⟨others, end_⟩, hothers, h⟩ := h
      cases h
      intro field hf
      rcases List.mem_cons.mp hf with rfl | hin
      · exact lineFree_of_parseField (lineFree_of_readLine hline) hfirst
      · exact ih hothers field hin

theorem lineFree_of_receive {s rest : Octets} {r : Head} (h : receive s = some (r, rest)) :
    ∀ field ∈ r.fields, LineFree field.2 := by
  rw [receive, Option.bind_eq_bind, Option.bind_eq_some_iff] at h
  obtain ⟨⟨line, after⟩, _, h⟩ := h
  rw [Option.bind_eq_some_iff] at h
  obtain ⟨⟨method, target⟩, _, h⟩ := h
  dsimp only at h
  rw [Option.bind_eq_bind, Option.bind_eq_some_iff] at h
  obtain ⟨⟨fields, body⟩, hfields, h⟩ := h
  cases h
  exact lineFree_of_readFields hfields

/-- What is sent arrives exactly where no value has a line end. -/
theorem receive_head_iff {r : Head} (h : Sendable r) (body : Octets) :
    receive (r.written ++ body) = some (r.asRead, body) ↔
      ∀ field ∈ r.fields, LineFree field.2 := by
  constructor
  · intro hreceive field hf
    have hread := lineFree_of_receive hreceive (lower field.1, trim isOws field.2)
      (List.mem_map_of_mem hf)
    exact (lineFree_trim field.2).mp hread
  · exact fun hvalues => receive_head h hvalues body

end RequestHead
