import HolderDaemon.Pieces
import HolderDaemon.RunnerRegistry

/-!
A model's streamed answer (`stream_generate` in `llm/LocalModelRunner.cpp`): a body of JSON lines,
which arrives in reads. A line that is cut by a read is worked off as two lines, and what is no
JSON is ignored.
-/

set_option autoImplicit false

open Bytes Pieces

namespace HolderDaemon

namespace ModelStream

/-- Either nothing has come of the request before a body is read (an address that does not
resolve, a request that cannot be encoded or sent, no header), or a header with its status and
the reads of the body. -/
inductive Exchange where
  | failed (what : Bytes)
  | answered (status : Nat) (reads : List (Read UInt8 Bytes))

/-- `result` is none where the call throws, `error` where it is not written. -/
structure Generated where
  delivered : List Bytes
  result : Option Bool
  error : Option Bytes
  deriving DecidableEq

def httpError (status : Nat) : Bytes := ascii "HTTP " ++ decimal status

section Generate
variable (parse : Bytes → Option Json) (onChunk : List Bytes → Bytes → Bool)

/-- `payload.contains("done") && payload["done"].get<bool>()`; a value of another type throws. -/
def reportsDone (payload : Json) : Bool :=
  match payload.field? (ascii "done") with
  | some (.bool done) => done
  | _ => false

/-- A trimmed line, after what has been delivered before. Whatever throws, `on_chunk` too, makes
the rest of the line ignored. -/
def generateLine (delivered : List Bytes) (trimmed : Bytes) : List Bytes × Bool :=
  match parse trimmed with
  | none => (delivered, false)
  | some payload =>
    match payload.field? (ascii "response") with
    | none => (delivered, reportsDone payload)
    | some (.str text) =>
      if text = [] then (delivered, reportsDone payload)
      else (delivered ++ [text], onChunk delivered text && reportsDone payload)
    | some _ => (delivered, false)

/-- `onChunk` says whether the callback returns normally, after what it was called with before. -/
def streamGenerate (model prompt : Bytes) (fakeMode : Bool) (exchange : Exchange) : Generated :=
  if fakeMode then
    if model = [] then ⟨[], some false, some (ascii "missing model")⟩
    else ⟨[prompt], if onChunk [] prompt then some true else none, none⟩
  else
    match exchange with
    | .failed what => ⟨[], some false, some what⟩
    | .answered status reads =>
      if status ≠ 200 then ⟨[], some false, some (httpError status)⟩
      else
        match readBody (generateLine parse onChunk) 10 Runners.isSpace [] [] reads with
        | (delivered, .error what) => ⟨delivered, some false, some what⟩
        | (delivered, _) => ⟨delivered, some true, none⟩

/-- A part of a body that delivers a text if it is read as a line. -/
def Delivers (piece : Bytes) : Prop :=
  ∃ payload text, parse (trim Runners.isSpace piece) = some payload ∧
    payload.field? (ascii "response") = some (.str text) ∧ text ≠ []

variable {parse onChunk}

theorem field?_object {payload : Json} {key : Bytes} {j : Json} (h : payload.field? key = some j) :
    ∃ fields, payload = .obj fields := by
  cases payload with
  | obj fields => exact ⟨fields, rfl⟩
  | _ => simp [Json.field?] at h

/-! Lines -/

variable (onChunk) in
theorem generateLine_quiet {piece : Bytes} (h : ¬ Delivers parse piece) (delivered : List Bytes) :
    (generateLine parse onChunk delivered (trim Runners.isSpace piece)).1 = delivered := by
  unfold generateLine
  cases hparse : parse (trim Runners.isSpace piece) with
  | none => rfl
  | some payload =>
    cases hfield : payload.field? (ascii "response") with
    | none => simp [hfield]
    | some j =>
      cases j with
      | str text =>
        have hnil : text = [] := by
          by_contra hne
          exact h ⟨payload, text, hparse, hfield, hne⟩
        simp [hnil, hfield]
      | _ => simp [hfield]

theorem loop_quiet {ls : List Bytes}
    (h : ∀ l ∈ ls, ∃ piece, ¬ Delivers parse piece ∧ trim Runners.isSpace piece = l)
    (delivered : List Bytes) : (loop (generateLine parse onChunk) delivered ls).1 = delivered := by
  induction ls with
  | nil => rfl
  | cons l ls ih =>
    obtain ⟨⟨piece, hquiet, htrim⟩, hrest⟩ := List.forall_mem_cons.mp h
    have hline := generateLine_quiet onChunk hquiet delivered
    rw [htrim] at hline
    rw [loop]
    split
    · rename_i t ht
      rw [ht] at hline
      exact hline
    · rename_i t ht
      rw [ht] at hline
      rw [show t = delivered from hline]
      exact ih hrest

/-- The shortest text of an object is `{}`. -/
def ObjectTexts (parse : Bytes → Option Json) : Prop :=
  ∀ s fields, parse s = some (.obj fields) → 2 ≤ s.length

theorem generateLine_byte (hparse : ObjectTexts parse) (delivered : List Bytes) (b : UInt8) :
    generateLine parse onChunk delivered [b] = (delivered, false) := by
  have hfield : ∀ payload, parse [b] = some payload → ∀ key, payload.field? key = none := by
    intro payload hp key
    cases payload with
    | obj fields => exact absurd (hparse _ _ hp) (by simp)
    | _ => rfl
  unfold generateLine
  cases hp : parse [b] with
  | none => rfl
  | some payload => simp [reportsDone, hfield payload hp]

def oneByOne (s : Bytes) : List Bytes := s.map fun b => [b]

theorem flatten_oneByOne (s : Bytes) : (oneByOne s).flatten = s := by
  rw [oneByOne, ← List.flatMap_def, List.flatMap_singleton']

theorem ne_nil_of_mem_oneByOne {s c : Bytes} (h : c ∈ oneByOne s) : c ≠ [] := by
  obtain ⟨b, -, rfl⟩ := List.mem_map.mp h
  exact List.cons_ne_nil b []

/-- Bytes that arrive one by one do nothing. -/
theorem loop_bytes (hparse : ObjectTexts parse) (delivered : List Bytes) (s : Bytes) :
    loop (generateLine parse onChunk) delivered
      ((oneByOne s).flatMap (lines 10 Runners.isSpace)) = (delivered, false) := by
  induction s with
  | nil => rfl
  | cons b s ih =>
    rw [oneByOne, List.map_cons, List.flatMap_cons, loop_append]
    have hone : loop (generateLine parse onChunk) delivered (lines 10 Runners.isSpace [b]) =
        (delivered, false) := by
      by_cases hsep : b = 10
      · have hnone : lines 10 Runners.isSpace [(10 : UInt8)] = [] := by decide
        rw [hsep, hnone]
        rfl
      · rw [lines_line (by simpa using Ne.symm hsep)]
        split
        · rfl
        · rename_i hne
          have hbyte : trim Runners.isSpace [b] = [b] := by
            rw [trim_singleton] at hne ⊢
            split
            · rename_i hb
              exact absurd (if_pos hb) hne
            · rfl
          rw [hbyte, loop, generateLine_byte hparse]
          rfl
    rw [hone]
    exact ih

/-! Whole bodies -/

variable (parse onChunk)

/-- The body of an answered request, in these pieces. -/
def generated (model prompt : Bytes) (chunks : List Bytes) : Generated :=
  streamGenerate parse onChunk model prompt false (.answered 200 (pieces chunks))

variable {parse onChunk}

/-- A body that comes without an error is reported as a success, whatever it says. -/
theorem generated_eq (model prompt : Bytes) (chunks : List Bytes) :
    generated parse onChunk model prompt chunks =
      ⟨(loop (generateLine parse onChunk) [] (chunks.flatMap (lines 10 Runners.isSpace))).1,
        some true, none⟩ := by
  rw [generated, streamGenerate, readBody_pieces]
  cases (loop (generateLine parse onChunk) [] (chunks.flatMap (lines 10 Runners.isSpace))).2 <;> rfl

/-- Nothing is delivered by pieces that lie within the body where no part of it would be. -/
theorem delivered_quiet {body : Bytes} {chunks : List Bytes} (hbody : chunks.flatten = body)
    (h : ∀ piece, piece <:+: body → 10 ∉ piece → ¬ Delivers parse piece) :
    (loop (generateLine parse onChunk) [] (chunks.flatMap (lines 10 Runners.isSpace))).1 = [] := by
  refine loop_quiet (fun l hl => ?_) []
  obtain ⟨c, hc, hline⟩ := List.mem_flatMap.mp hl
  obtain ⟨piece, hpiece, hnot, htrim⟩ := lines_infix hline
  refine ⟨piece, h piece (hpiece.trans ?_) hnot, htrim⟩
  obtain ⟨before, after, rfl⟩ := List.append_of_mem hc
  rw [← hbody, List.flatten_append, List.flatten_cons]
  exact ⟨before.flatten, after.flatten, List.append_assoc ..⟩

/-- A part that delivers a text does so where it arrives by itself. -/
theorem delivered_alone (hparse : ObjectTexts parse) {x piece y : Bytes} (hsep : 10 ∉ piece)
    (h : Delivers parse piece) :
    (loop (generateLine parse onChunk) []
      ((oneByOne x ++ [piece] ++ oneByOne y).flatMap (lines 10 Runners.isSpace))).1 ≠ [] := by
  obtain ⟨payload, text, hpayload, hfield, htext⟩ := h
  obtain ⟨fields, rfl⟩ := field?_object hfield
  have hne : trim Runners.isSpace piece ≠ [] := by
    intro hnil
    have hlen := hparse _ _ hpayload
    rw [hnil] at hlen
    exact absurd hlen (by decide)
  have hline : generateLine parse onChunk [] (trim Runners.isSpace piece) =
      ([text], onChunk [] text && reportsDone (.obj fields)) := by
    simp [generateLine, hpayload, hfield, htext]
  rw [List.flatMap_append, List.flatMap_append, List.append_assoc, loop_append,
    loop_bytes hparse, if_neg Bool.false_ne_true, loop_append]
  have hone : loop (generateLine parse onChunk) []
      ([piece].flatMap (lines 10 Runners.isSpace)) =
        ([text], onChunk [] text && reportsDone (.obj fields)) := by
    rw [List.flatMap_singleton, lines_line hsep, if_neg hne, loop, hline]
    cases onChunk [] text && reportsDone (.obj fields) <;> rfl
  rw [hone]
  split
  · simp
  · rw [loop_bytes hparse]
    simp

/-- What is delivered does not depend on the reads exactly where no part of a line delivers a
text; and reads that do not end inside the text of a line deliver what a single read does. -/
theorem generated_chunks_iff (hparse : ObjectTexts parse) (model prompt body : Bytes) :
    ((∀ chunks : List Bytes, (∀ c ∈ chunks, c ≠ []) → chunks.flatten = body →
        generated parse onChunk model prompt chunks = generated parse onChunk model prompt [body]) ↔
      ∀ piece, piece <:+: body → 10 ∉ piece → ¬ Delivers parse piece) ∧
    ∀ chunks : List Bytes, chunks.flatten = body →
      Aligned (generateLine parse onChunk) 10 Runners.isSpace [] chunks →
      generated parse onChunk model prompt chunks = generated parse onChunk model prompt [body] := by
  refine ⟨⟨fun hsame piece hpiece hsep hdelivers => ?_, fun hquiet chunks _ hbody => ?_⟩,
    fun chunks hbody haligned => ?_⟩
  · obtain ⟨x, y, rfl⟩ := hpiece
    have hne : piece ≠ [] := by
      rintro rfl
      obtain ⟨payload, text, hpayload, hfield, -⟩ := hdelivers
      obtain ⟨fields, rfl⟩ := field?_object hfield
      exact absurd (hparse _ _ hpayload) (by decide)
    have halone := hsame (oneByOne x ++ [piece] ++ oneByOne y) (by
      intro c hc
      rcases List.mem_append.mp hc with hc | hc
      · rcases List.mem_append.mp hc with hc | hc
        · exact ne_nil_of_mem_oneByOne hc
        · rwa [List.mem_singleton.mp hc]
      · exact ne_nil_of_mem_oneByOne hc) (by simp [flatten_oneByOne])
    have hsingle := hsame (oneByOne (x ++ piece ++ y)) (fun c hc => ne_nil_of_mem_oneByOne hc)
      (flatten_oneByOne _)
    rw [← hsingle, generated_eq, generated_eq, loop_bytes hparse] at halone
    exact delivered_alone hparse hsep hdelivers (congrArg Generated.delivered halone)
  · rw [generated_eq, generated_eq, delivered_quiet hbody hquiet, delivered_quiet (by simp) hquiet]
  · simp only [generated, streamGenerate, readBody_aligned haligned, hbody]

end Generate

/-- The parser on a body of one object and on the parts of it, which are no JSON. -/
def parseOnly (body : Bytes) (payload : Json) (text : Bytes) : Option Json :=
  if text = body then some payload else none

theorem generated_chunks_done :
    generated (parseOnly (ascii "\x7b\x7d") (.obj [])) (fun _ _ => true) [] []
        [ascii "\x7b", ascii "\x7d"] =
      generated (parseOnly (ascii "\x7b\x7d") (.obj [])) (fun _ _ => true) [] []
        [ascii "\x7b\x7d"] := by
  refine (generated_chunks_iff (fun s fields h => ?_) [] [] (ascii "\x7b\x7d")).1.mpr ?_ _
    (by decide) (by decide)
  · rw [parseOnly] at h
    split at h
    · rename_i hs
      rw [hs]
      decide
    · cases h
  · rintro piece - - ⟨payload, text, hpayload, hfield, -⟩
    rw [parseOnly] at hpayload
    split at hpayload
    · cases hpayload
      cases hfield
    · cases hpayload

def yes : Json := .obj [(ascii "response", .str (ascii "Yes."))]

def yesHead : Bytes := ascii "\x7b\"response\":"

def yesTail : Bytes := ascii "\"Yes.\"\x7d"

/-- A line in two reads, of which neither is JSON: the text is lost, and the call succeeds. -/
theorem cut_line_lost :
    generated (parseOnly (yesHead ++ yesTail) yes) (fun _ _ => true) [] [] [yesHead ++ yesTail] =
      ⟨[ascii "Yes."], some true, none⟩ ∧
    generated (parseOnly (yesHead ++ yesTail) yes) (fun _ _ => true) [] [] [yesHead, yesTail] =
      ⟨[], some true, none⟩ := by
  decide +kernel

end ModelStream

end HolderDaemon
