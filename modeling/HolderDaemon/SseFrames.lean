import HolderDaemon.EventStream
import HolderDaemon.EventJournal
import HolderDaemon.SseStream

/-!
The frames of `encode_sse` read back: what JSON text looks like on the wire, and a stream of
frames with keepalive comments among them.
-/

set_option autoImplicit false

open Bytes

/-! JSON text -/

namespace Json

/-- A byte of a number's text, or of the `null` that stands for one that is not finite. -/
def floatByte (b : UInt8) : Bool := isDigit b || (ascii "+-.enul").contains b

mutual

/-- Floating-point numbers stand as they are printed. -/
def printed : Json → Bool
  | .float text => text.all floatByte
  | .arr items => printedItems items
  | .obj fields => printedFields fields
  | _ => true

def printedItems : List Json → Bool
  | [] => true
  | j :: js => j.printed && printedItems js

def printedFields : List (Bytes × Json) → Bool
  | [] => true
  | (_, j) :: fs => j.printed && printedFields fs

end

/-- UTF-8 text on one line. -/
def OneLine (s : Bytes) : Prop := validUtf8 s = true ∧ EventStream.NoBreak s

theorem OneLine.append {s t : Bytes} (hs : OneLine s) (ht : OneLine t) : OneLine (s ++ t) :=
  ⟨validUtf8_append hs.1 ht.1, hs.2.append ht.2⟩

theorem scan_ascii {s : Bytes} (h : ∀ b ∈ s, b.toNat < 0x80) :
    Utf8.scan .accept s = some .accept := by
  induction s with
  | nil => rfl
  | cons b s ih =>
    have hb := h b List.mem_cons_self
    have hrest := ih fun c hc => h c (List.mem_cons_of_mem b hc)
    rw [Utf8.scan, Utf8.next, Utf8.first, if_pos hb]
    exact hrest

theorem oneLine_of_visible {s : Bytes} (h : ∀ b ∈ s, 32 ≤ b.toNat ∧ b.toNat < 0x80) :
    OneLine s := by
  have hvalid : validUtf8 s = true := decide_eq_true (scan_ascii fun b hb => (h b hb).2)
  exact ⟨hvalid, fun hlf => absurd (h 10 hlf).1 (by decide),
    fun hret => absurd (h 13 hret).1 (by decide)⟩

/-- The texts that the encoder writes of its own. -/
theorem visible_marks : ∀ s ∈ [ascii "-", ascii "+-.enul", ascii ",", ascii ":", ascii "[",
    ascii "]", ascii "\x7b", ascii "\x7d", ascii "null", ascii "true", ascii "false"],
    ∀ b ∈ s, 32 ≤ b.toNat ∧ b.toNat < 0x80 := by decide +kernel

theorem isDigit_visible {b : UInt8} (h : isDigit b = true) :
    32 ≤ b.toNat ∧ b.toNat < 0x80 := by
  simp only [isDigit, Bool.and_eq_true, decide_eq_true_eq] at h
  omega

theorem oneLine_decimal (n : Nat) : OneLine (decimal n) :=
  oneLine_of_visible fun b hb => isDigit_visible (List.all_eq_true.mp (all_isDigit_decimal n) b hb)

theorem oneLine_dumpInt (i : Int) : OneLine (dumpInt i) := by
  have hminus : OneLine (ascii "-") := oneLine_of_visible (visible_marks _ (by simp))
  unfold dumpInt
  split
  · exact hminus.append (oneLine_decimal _)
  · exact oneLine_decimal _

theorem oneLine_float {text : Bytes} (h : text.all floatByte = true) : OneLine text := by
  have hother := visible_marks (ascii "+-.enul") (by simp)
  refine oneLine_of_visible fun b hb => ?_
  have hbyte := List.all_eq_true.mp h b hb
  rw [floatByte, Bool.or_eq_true, List.contains_iff_mem] at hbyte
  exact hbyte.elim isDigit_visible (hother b)

theorem hexDigit_lt {n : Nat} (h : n < 16) : (hexDigit n).toNat < 0x80 := by
  rw [hexDigit]
  split
  · rw [UInt8.toNat_ofNat']
    omega
  · rw [UInt8.toNat_ofNat']
    omega

/-- A byte below 128 is escaped by bytes below 128, and others stand for themselves. -/
theorem escapeByte_ascii {b : UInt8} (hb : b.toNat < 0x80) :
    ∀ c ∈ escapeByte b, c.toNat < 0x80 := by
  have hplain : ∀ s ∈ [ascii "\\b", ascii "\\t", ascii "\\n", ascii "\\f", ascii "\\r",
      ascii "\\\"", ascii "\\\\", ascii "\\u00"], ∀ c ∈ s, c.toNat < 0x80 := by decide +kernel
  unfold escapeByte
  split_ifs
  · exact hplain _ (by simp)
  · exact hplain _ (by simp)
  · exact hplain _ (by simp)
  · exact hplain _ (by simp)
  · exact hplain _ (by simp)
  · exact hplain _ (by simp)
  · exact hplain _ (by simp)
  · intro c hc
    rcases List.mem_append.mp hc with hstart | hdigits
    · exact hplain _ (by simp) c hstart
    · rcases List.mem_pair.mp hdigits with rfl | rfl
      · exact hexDigit_lt (by omega)
      · exact hexDigit_lt (by omega)
  · simpa using hb

theorem escapeByte_of_ge {b : UInt8} (hb : ¬ b.toNat < 0x80) : escapeByte b = [b] := by
  have hne : ∀ c : UInt8, c.toNat < 0x80 → b ≠ c := by
    rintro c hc rfl
    exact hb hc
  rw [escapeByte, if_neg (hne _ (by decide)), if_neg (hne _ (by decide)),
    if_neg (hne _ (by decide)), if_neg (hne _ (by decide)), if_neg (hne _ (by decide)),
    if_neg (hne _ (by decide)), if_neg (hne _ (by decide)), if_neg (by omega)]

/-- Escaping a byte moves the decoder as the byte does. -/
theorem scan_escapeByte {q r : Utf8} {b : UInt8} (h : q.next b = some r) :
    q.scan (escapeByte b) = some r := by
  by_cases hb : b.toNat < 0x80
  · obtain ⟨rfl, rfl⟩ := Utf8.accept_of_next hb h
    exact scan_ascii (escapeByte_ascii hb)
  · rw [escapeByte_of_ge hb, Utf8.scan, h]
    rfl

theorem scan_escaped {q r : Utf8} {s : Bytes} (h : q.scan s = some r) :
    q.scan (s.flatMap escapeByte) = some r := by
  induction s generalizing q with
  | nil => exact h
  | cons b s ih =>
    obtain ⟨p, hp, hrest⟩ := Option.bind_eq_some_iff.mp h
    rw [List.flatMap_cons, Utf8.scan_append, scan_escapeByte hp]
    exact ih hrest

theorem oneLine_dumpString {s text : Bytes} (h : dumpString s = .ok text) : OneLine text := by
  unfold dumpString at h
  split at h
  · rename_i hs
    cases h
    have hquote : validUtf8 (ascii "\"") = true := by decide
    have hbody : validUtf8 (s.flatMap escapeByte) = true :=
      decide_eq_true (scan_escaped (of_decide_eq_true hs))
    exact ⟨validUtf8_append (validUtf8_append hquote hbody) hquote,
      control_notMem_quoted (by decide) s, control_notMem_quoted (by decide) s⟩
  · cases h

theorem oneLine_separated {parts : List Bytes} (h : ∀ part ∈ parts, OneLine part) :
    OneLine (separated parts) := by
  have hcomma : OneLine (ascii ",") := oneLine_of_visible (visible_marks _ (by simp))
  fun_induction separated parts with
  | case1 => exact oneLine_of_visible (by simp)
  | case2 part => exact h part (by simp)
  | case3 part next rest ih =>
    have hrest := ih fun other hother => h other (List.mem_cons_of_mem part hother)
    exact ((h part (by simp)).append hcomma).append hrest

mutual

/-- No JSON text holds a line break. -/
theorem oneLine_dump (j : Json) (hp : j.printed = true) {text : Bytes}
    (h : j.dump = .ok text) : OneLine text := by
  cases j with
  | null =>
    cases h
    exact oneLine_of_visible (visible_marks _ (by simp))
  | bool b =>
    cases h
    cases b <;> exact oneLine_of_visible (visible_marks _ (by simp))
  | int i =>
    cases h
    exact oneLine_dumpInt i
  | float printedText =>
    cases h
    exact oneLine_float hp
  | str s => exact oneLine_dumpString h
  | arr items =>
    obtain ⟨parts, hparts, htext⟩ := of_bind_ok h
    cases htext
    have hopen : OneLine (ascii "[") := oneLine_of_visible (visible_marks _ (by simp))
    have hclose : OneLine (ascii "]") := oneLine_of_visible (visible_marks _ (by simp))
    exact (hopen.append (oneLine_separated (oneLine_dumpItems items hp hparts))).append hclose
  | obj fields =>
    obtain ⟨parts, hparts, htext⟩ := of_bind_ok h
    cases htext
    have hopen : OneLine (ascii "\x7b") := oneLine_of_visible (visible_marks _ (by simp))
    have hclose : OneLine (ascii "\x7d") := oneLine_of_visible (visible_marks _ (by simp))
    exact (hopen.append (oneLine_separated (oneLine_dumpFields fields hp hparts))).append hclose

theorem oneLine_dumpItems (items : List Json) (hp : printedItems items = true)
    {parts : List Bytes} (h : dumpItems items = .ok parts) : ∀ part ∈ parts, OneLine part := by
  cases items with
  | nil =>
    cases h
    intro part hpart
    cases hpart
  | cons j js =>
    rw [printedItems, Bool.and_eq_true] at hp
    obtain ⟨first, hfirst, h⟩ := of_bind_ok h
    obtain ⟨rest, hrest, h⟩ := of_bind_ok h
    cases h
    intro part hpart
    rcases List.mem_cons.mp hpart with rfl | hmem
    · exact oneLine_dump j hp.1 hfirst
    · exact oneLine_dumpItems js hp.2 hrest part hmem

theorem oneLine_dumpFields (fields : List (Bytes × Json)) (hp : printedFields fields = true)
    {parts : List Bytes} (h : dumpFields fields = .ok parts) : ∀ part ∈ parts, OneLine part := by
  cases fields with
  | nil =>
    cases h
    intro part hpart
    cases hpart
  | cons f fs =>
    obtain ⟨k, j⟩ := f
    rw [printedFields, Bool.and_eq_true] at hp
    obtain ⟨key, hkey, h⟩ := of_bind_ok h
    obtain ⟨first, hfirst, h⟩ := of_bind_ok h
    obtain ⟨rest, hrest, h⟩ := of_bind_ok h
    cases h
    have hcolon : OneLine (ascii ":") := oneLine_of_visible (visible_marks _ (by simp))
    intro part hpart
    rcases List.mem_cons.mp hpart with rfl | hmem
    · exact ((oneLine_dumpString hkey).append hcolon).append (oneLine_dump j hp.1 hfirst)
    · exact oneLine_dumpFields fs hp.2 hrest part hmem

end

end Json

namespace HolderDaemon

open EventStream (Message NoBreak interpret)
open SseStream (keepalive)

/-! Streams -/

/-- What is enqueued: the frame of an event, or the heartbeat's comment. -/
inductive Sent where
  | event (e : StreamEvent)
  | heartbeat

def Sent.frame : Sent → Except Json.Error Bytes
  | .event e => encodeSse e
  | .heartbeat => .ok keepalive

/-- The frames one after the other, as the socket takes them. -/
def streamed : List Sent → Except Json.Error Bytes
  | [] => .ok []
  | s :: sent => do
    let frame ← s.frame
    let rest ← streamed sent
    .ok (frame ++ rest)

def sentEvents : List Sent → List StreamEvent
  | [] => []
  | .event e :: sent => e :: sentEvents sent
  | .heartbeat :: sent => sentEvents sent

/-- An id and a name that a reader of the format keeps as they are. -/
structure Legible (e : StreamEvent) : Prop where
  id_noBreak : NoBreak e.id
  name_noBreak : NoBreak e.name
  id_utf8 : validUtf8 e.id = true
  name_utf8 : validUtf8 e.name = true
  id_noNul : (0 : UInt8) ∉ e.id
  name_ne : e.name ≠ []

/-- A message that says what an event says, its data both as text and as `parse` reads it. -/
structure Delivers (parse : Bytes → Option Json) (e : StreamEvent) (m : Message) : Prop where
  id : m.id = e.id
  name : m.name = e.name
  text : e.data.dump = .ok m.data
  data : parse m.data = some e.data

/-- What is sent of an event: an id, a name and JSON that can be written and read back. -/
structure Sendable (parse : Bytes → Option Json) (e : StreamEvent) : Prop where
  legible : Legible e
  encodable : e.data.encodable = true
  printed : e.data.printed = true
  parsed : ∀ text, e.data.dump = .ok text → parse text = some e.data

theorem encodeSse_frame {e : StreamEvent} {text : Bytes} (h : e.data.dump = .ok text) :
    encodeSse e = .ok (EventStream.frame ⟨e.id, e.name, text⟩) := by
  have hid : ascii "id: " = ascii "id" ++ [58, 32] := by decide
  have hevent : ascii "\nevent: " = 10 :: ascii "event" ++ [58, 32] := by decide
  have hdata : ascii "\ndata: " = 10 :: ascii "data" ++ [58, 32] := by decide
  have hend : ascii "\n\n" = [10, 10] := by decide
  simp [encodeSse, h, hid, hevent, hdata, hend, EventStream.frame, EventStream.fieldLine]
  rfl

theorem keepalive_comment : keepalive = EventStream.comment (ascii " keepalive") := by decide

theorem Sendable.dump {parse : Bytes → Option Json} {e : StreamEvent} (h : Sendable parse e) :
    ∃ text, e.data.dump = .ok text ∧ Json.OneLine text := by
  have hok := Json.dump_isOk e.data
  rw [h.encodable] at hok
  cases hd : e.data.dump with
  | error err =>
    rw [hd] at hok
    cases hok
  | ok text => exact ⟨text, rfl, Json.oneLine_dump e.data h.printed hd⟩

theorem validUtf8_fieldLine {name value : Bytes} (hname : validUtf8 name = true)
    (hvalue : validUtf8 value = true) : validUtf8 (EventStream.fieldLine name value) = true := by
  have hmark : validUtf8 [58, 32] = true := by decide
  have hend : validUtf8 [10] = true := by decide
  exact validUtf8_append (validUtf8_append hname (validUtf8_append hmark hvalue)) hend

theorem validUtf8_frame {m : Message} (hid : validUtf8 m.id = true)
    (hname : validUtf8 m.name = true) (hdata : validUtf8 m.data = true) :
    validUtf8 (EventStream.frame m) = true :=
  validUtf8_append (validUtf8_append (validUtf8_append (validUtf8_fieldLine (by decide) hid)
    (validUtf8_fieldLine (by decide) hname)) (validUtf8_fieldLine (by decide) hdata)) (by decide)

theorem read_event (id : Bytes) (messages : List Message) {e : StreamEvent} {text : Bytes}
    (hl : Legible e) (htext : Json.OneLine text) :
    (EventStream.settled id messages).read (EventStream.frame ⟨e.id, e.name, text⟩) =
      EventStream.settled e.id (messages ++ [⟨e.id, e.name, text⟩]) := by
  rw [EventStream.read_frame id messages hl.id_noBreak hl.name_noBreak htext.2]
  simp only [if_neg hl.id_noNul, if_neg hl.name_ne]

/-- The stream of sendable events is written, is UTF-8, does not begin with a mark of the
byte order, and is read as one message for each event, whatever was read before. -/
theorem read_streamed {parse : Bytes → Option Json} {sent : List Sent}
    (h : ∀ e ∈ sentEvents sent, Sendable parse e) (id : Bytes) (messages : List Message) :
    ∃ stream newId more, streamed sent = .ok stream ∧ validUtf8 stream = true ∧
      stream.head? ≠ some 0xEF ∧ List.Forall₂ (Delivers parse) (sentEvents sent) more ∧
      (EventStream.settled id messages).read stream =
        EventStream.settled newId (messages ++ more) := by
  induction sent generalizing id messages with
  | nil => exact ⟨[], id, [], rfl, by decide, by simp, .nil, by simp [EventStream.Reader.read]⟩
  | cons s sent ih =>
    cases s with
    | event e =>
      have he : Sendable parse e := h e List.mem_cons_self
      obtain ⟨text, hdump, htext⟩ := he.dump
      obtain ⟨rest, newId, more, hrest, hutf8, -, hmore, hread⟩ :=
        ih (fun other hmem => h other (List.mem_cons_of_mem e hmem)) e.id
          (messages ++ [⟨e.id, e.name, text⟩])
      refine ⟨EventStream.frame ⟨e.id, e.name, text⟩ ++ rest, newId, ⟨e.id, e.name, text⟩ :: more,
        ?_, ?_, ?_, ?_, ?_⟩
      · simp [streamed, Sent.frame, encodeSse_frame hdump, hrest, bind, Except.bind]
      · exact validUtf8_append
          (validUtf8_frame he.legible.id_utf8 he.legible.name_utf8 htext.1) hutf8
      · have hi : ascii "id" = [105, 100] := by decide
        simp [EventStream.frame, EventStream.fieldLine, hi]
      · exact .cons ⟨rfl, rfl, hdump, he.parsed text hdump⟩ hmore
      · rw [EventStream.read_append, read_event id messages he.legible htext, hread]
        simp
    | heartbeat =>
      obtain ⟨rest, newId, more, hrest, hutf8, -, hmore, hread⟩ :=
        ih h id messages
      have hkeep : NoBreak (ascii " keepalive") := by decide
      refine ⟨keepalive ++ rest, newId, more, ?_, ?_, ?_, hmore, ?_⟩
      · simp [streamed, Sent.frame, hrest, bind, Except.bind]
      · exact validUtf8_append (by decide) hutf8
      · simp [keepalive_comment, EventStream.comment]
      · rw [EventStream.read_append, keepalive_comment, EventStream.read_blankLines _ _ hkeep,
          hread]

/-- Frames are read back: of what was sent, with heartbeats anywhere in between, a reader
gets one message for each event, in order, with its id, its name and its data. -/
theorem interpret_streamed (parse : Bytes → Option Json) {sent : List Sent}
    (h : ∀ e ∈ sentEvents sent, Sendable parse e) :
    ∃ stream messages, streamed sent = .ok stream ∧ interpret stream = some messages ∧
      List.Forall₂ (Delivers parse) (sentEvents sent) messages := by
  obtain ⟨stream, newId, more, hstream, hutf8, hhead, hmore, hread⟩ := read_streamed h [] []
  have hbom : ¬ [0xEF, 0xBB, 0xBF] <+: stream := by
    rintro ⟨rest, rfl⟩
    exact hhead rfl
  refine ⟨stream, more, hstream, ?_, hmore⟩
  rw [interpret, if_pos hutf8, EventStream.withoutBom, if_neg hbom]
  exact congrArg (fun r => some (EventStream.Reader.buffers r).messages) hread

/-- Events without a name, or with a NUL in the id, are written and not read back: the first
arrives as a `message`, the second with the id of the reader. -/
theorem interpret_misreads :
    ∃ unnamed nul : StreamEvent,
      (NoBreak unnamed.id ∧ NoBreak unnamed.name ∧ unnamed.data.encodable = true) ∧
      (NoBreak nul.id ∧ NoBreak nul.name ∧ nul.data.encodable = true) ∧
      (∃ frame, encodeSse unnamed = .ok frame ∧ unnamed.name = [] ∧
        interpret frame = some [⟨unnamed.id, ascii "message", ascii "null"⟩]) ∧
      ∃ frame, encodeSse nul = .ok frame ∧ nul.id = [0] ∧
        interpret frame = some [⟨[], nul.name, ascii "null"⟩] := by
  refine ⟨⟨ascii "7", [], .null⟩, ⟨[0], ascii "ready", .null⟩, by decide, by decide, ?_, ?_⟩
  · exact ⟨_, encodeSse_frame rfl, rfl, by decide⟩
  · exact ⟨_, encodeSse_frame rfl, rfl, by decide⟩

/-- A reader of the one text that the payload of a resynchronization has. -/
def readReason (text : Bytes) : Option Json :=
  if text = ascii "\x7b\"reason\":\"observer_unavailable\"\x7d" then
    some (.obj [(ascii "reason", .str (ascii "observer_unavailable"))])
  else none

theorem interpret_streamed_resync :
    ∃ stream messages, streamed [.heartbeat, .event ⟨cursorText nilEpoch 1,
        ascii "resync_required",
        .obj [(ascii "reason", .str (ascii "observer_unavailable"))]⟩, .heartbeat] = .ok stream ∧
      interpret stream = some messages ∧ messages.length = 1 := by
  have hsendable : ∀ e ∈ sentEvents [.heartbeat, .event ⟨cursorText nilEpoch 1,
      ascii "resync_required",
      .obj [(ascii "reason", .str (ascii "observer_unavailable"))]⟩, .heartbeat],
      Sendable readReason e := by
    intro e he
    obtain rfl := List.mem_singleton.mp he
    refine ⟨⟨by decide, by decide, by decide, by decide, by decide, by decide⟩, by decide,
      by decide, fun text htext => ?_⟩
    have hdump : text = ascii "\x7b\"reason\":\"observer_unavailable\"\x7d" :=
      (Except.ok.inj htext).symm
    rw [readReason, if_pos hdump]
  obtain ⟨stream, messages, hstream, hread, hall⟩ := interpret_streamed readReason hsendable
  exact ⟨stream, messages, hstream, hread, hall.length_eq.symm⟩

end HolderDaemon
