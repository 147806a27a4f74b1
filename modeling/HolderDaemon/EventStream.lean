import HolderDaemon.Bytes

/-!
The event-stream format as a reader takes it: lines that end at CR, LF or CRLF, fields that
fill three buffers, and a blank line that dispatches them.
-/

set_option autoImplicit false

open Bytes

namespace EventStream

structure Message where
  id : Bytes
  name : Bytes
  data : Bytes
  deriving DecidableEq, Repr

/-- The id outlives a message; the other two are emptied by the blank line. -/
@[ext] structure Buffers where
  id : Bytes := []
  name : Bytes := []
  data : Bytes := []
  messages : List Message := []

/-- Without data nothing is dispatched; without a name it is a `message`. -/
def Buffers.dispatch (b : Buffers) : Buffers :=
  if b.data = [] then { b with name := [] }
  else
    let name := if b.name = [] then ascii "message" else b.name
    { b with name := [], data := [], messages := b.messages ++ [⟨b.id, name, b.data.dropLast⟩] }

/-- `retry` and unknown names leave the buffers alone, and so does an id that holds a NUL. -/
def Buffers.field (b : Buffers) (name value : Bytes) : Buffers :=
  if name = ascii "event" then { b with name := value }
  else if name = ascii "data" then { b with data := b.data ++ value ++ [10] }
  else if name = ascii "id" then if (0 : UInt8) ∈ value then b else { b with id := value }
  else b

/-- The name before the first colon, and the value after it less one space. -/
def fieldOf (line : Bytes) : Bytes × Bytes :=
  let value := (line.dropWhile (· != 58)).drop 1
  (line.takeWhile (· != 58), if value.head? = some 32 then value.drop 1 else value)

def Buffers.endOfLine (b : Buffers) (line : Bytes) : Buffers :=
  if line = [] then b.dispatch
  else if line.head? = some 58 then b
  else b.field (fieldOf line).1 (fieldOf line).2

structure Reader where
  line : Bytes := []
  afterCr : Bool := false
  buffers : Buffers := {}

def Reader.step (r : Reader) (ch : UInt8) : Reader :=
  if ch = 10 then
    if r.afterCr then { r with afterCr := false } else { buffers := r.buffers.endOfLine r.line }
  else if ch = 13 then { afterCr := true, buffers := r.buffers.endOfLine r.line }
  else { r with line := r.line ++ [ch], afterCr := false }

def Reader.read (r : Reader) (s : Bytes) : Reader := s.foldl step r

def withoutBom (s : Bytes) : Bytes := if [0xEF, 0xBB, 0xBF] <+: s then s.drop 3 else s

/-- The messages of a stream. Of one that is not UTF-8, which is decoded with replacement
characters, nothing is said. -/
def interpret (s : Bytes) : Option (List Message) :=
  if validUtf8 s then some ((({} : Reader).read (withoutBom s)).buffers.messages) else none

/-- A field's line with its end. -/
def fieldLine (name value : Bytes) : Bytes := name ++ 58 :: 32 :: value ++ [10]

def NoBreak (s : Bytes) : Prop := (10 : UInt8) ∉ s ∧ (13 : UInt8) ∉ s

instance (s : Bytes) : Decidable (NoBreak s) := by
  unfold NoBreak
  infer_instance

theorem NoBreak.append {s t : Bytes} (hs : NoBreak s) (ht : NoBreak t) : NoBreak (s ++ t) := by
  simp only [NoBreak, List.mem_append, not_or]
  exact ⟨⟨hs.1, ht.1⟩, hs.2, ht.2⟩

/-! Lines -/

/-- A reader between two lines. -/
def between (b : Buffers) : Reader := { buffers := b }

theorem read_append (r : Reader) (s t : Bytes) : r.read (s ++ t) = (r.read s).read t :=
  List.foldl_append

/-- Bytes that end no line extend the one that is open. -/
theorem read_open {r : Reader} {s : Bytes} (hcr : r.afterCr = false) (hs : NoBreak s) :
    r.read s = { r with line := r.line ++ s } := by
  induction s generalizing r with
  | nil => simp [Reader.read]
  | cons ch s ih =>
    obtain ⟨hlf, hret⟩ := hs
    simp only [List.mem_cons, not_or] at hlf hret
    have hstep : r.step ch = { r with line := r.line ++ [ch], afterCr := false } := by
      rw [Reader.step, if_neg (Ne.symm hlf.1), if_neg (Ne.symm hret.1)]
    have hrest := ih (r := r.step ch) (by rw [hstep]) ⟨hlf.2, hret.2⟩
    rw [Reader.read, List.foldl_cons, ← Reader.read, hrest, hstep, hcr]
    simp

theorem read_line (b : Buffers) {line : Bytes} (h : NoBreak line) :
    (between b).read (line ++ [10]) = between (b.endOfLine line) := by
  rw [read_append, read_open rfl h]
  rfl

theorem fieldOf_line {name : Bytes} (h : (58 : UInt8) ∉ name) (value : Bytes) :
    fieldOf (name ++ 58 :: 32 :: value) = (name, value) := by
  have hname : ∀ ch ∈ name, (ch != 58) = true := fun ch hch => by
    simpa using fun heq : ch = 58 => h (heq ▸ hch)
  unfold fieldOf
  rw [List.takeWhile_append_of_pos hname, List.dropWhile_append_of_pos hname]
  simp

theorem read_fieldLine (b : Buffers) {name value : Bytes} (hname : (58 : UInt8) ∉ name)
    (hne : name ≠ []) (hbreak : NoBreak name) (hvalue : NoBreak value) :
    (between b).read (fieldLine name value) = between (b.field name value) := by
  have hmark : NoBreak [58, 32] := by decide
  have hline : NoBreak (name ++ 58 :: 32 :: value) := hbreak.append (hmark.append hvalue)
  have hhead : (name ++ 58 :: 32 :: value).head? ≠ some 58 := by
    cases name with
    | nil => exact absurd rfl hne
    | cons ch name =>
      intro h
      exact hname (List.mem_cons.mpr (.inl (Option.some.inj h).symm))
  rw [fieldLine, read_line b hline, Buffers.endOfLine, if_neg (by simp), if_neg hhead,
    fieldOf_line hname]

theorem read_blank (b : Buffers) : (between b).read [10] = between b.dispatch :=
  read_line b (by decide : NoBreak [])

/-- A line that begins with a colon is a comment. -/
theorem read_comment (b : Buffers) {text : Bytes} (h : NoBreak text) :
    (between b).read (58 :: text ++ [10]) = between b := by
  have hmark : NoBreak [58] := by decide
  have hline : NoBreak (58 :: text) := hmark.append h
  rw [read_line b hline, Buffers.endOfLine, if_neg (by simp), List.head?_cons,
    if_pos rfl]

/-! Frames -/

/-- A message as it is written: three fields and a blank line. -/
def frame (m : Message) : Bytes :=
  fieldLine (ascii "id") m.id ++ fieldLine (ascii "event") m.name ++
    fieldLine (ascii "data") m.data ++ [10]

def comment (text : Bytes) : Bytes := 58 :: text ++ [10, 10]

/-- What a reader between two messages holds: the id of the last one and those read so far. -/
def settled (id : Bytes) (messages : List Message) : Reader := between { id, messages }

/-- A frame is read as one message. What its id and its name become does not depend on what
was read before, an id with a NUL apart. -/
theorem read_frame (id : Bytes) (messages : List Message) {m : Message} (hid : NoBreak m.id)
    (hname : NoBreak m.name) (hdata : NoBreak m.data) :
    (settled id messages).read (frame m) =
      let newId := if (0 : UInt8) ∈ m.id then id else m.id
      settled newId (messages ++
        [⟨newId, if m.name = [] then ascii "message" else m.name, m.data⟩]) := by
  rw [frame, read_append, read_append, read_append, settled,
    read_fieldLine _ (by decide) (by decide) (by decide) hid,
    read_fieldLine _ (by decide) (by decide) (by decide) hname,
    read_fieldLine _ (by decide) (by decide) (by decide) hdata, read_blank]
  have hie : ascii "id" ≠ ascii "event" := by decide
  have hid' : ascii "id" ≠ ascii "data" := by decide
  have hde : ascii "data" ≠ ascii "event" := by decide
  by_cases hnul : (0 : UInt8) ∈ m.id <;>
    simp [settled, Buffers.field, Buffers.dispatch, hie, hid', hde, hnul]

theorem read_blankLines (id : Bytes) (messages : List Message) {text : Bytes} (h : NoBreak text) :
    (settled id messages).read (comment text) = settled id messages := by
  have hsplit : comment text = (58 :: text ++ [10]) ++ [10] := by simp [comment]
  rw [hsplit, read_append, settled, read_comment _ h, read_blank]
  rfl

end EventStream
