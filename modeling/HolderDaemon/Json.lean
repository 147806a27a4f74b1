import HolderDaemon.Bytes

/-!
JSON values as the daemon builds them, and the compact encoder. Encoding fails exactly
where a string or a key is not UTF-8 (`type_error.316`).
-/

set_option autoImplicit false

open Bytes

/-- A floating-point number is kept as the text it is printed as. -/
inductive Json where
  | null
  | bool (b : Bool)
  | int (i : Int)
  | float (text : Bytes)
  | str (s : Bytes)
  | arr (items : List Json)
  | obj (fields : List (Bytes × Json))
  deriving Repr

namespace Json

/-- `type_error.316` of the encoder and `type_error.302` of a typed read. -/
inductive Error where
  | notUtf8
  | wrongType
  deriving DecidableEq, Repr

def hexDigit (n : Nat) : UInt8 := UInt8.ofNat (if n < 10 then 48 + n else 87 + n)

def escapeByte (b : UInt8) : Bytes :=
  if b = 0x08 then ascii "\\b"
  else if b = 0x09 then ascii "\\t"
  else if b = 0x0A then ascii "\\n"
  else if b = 0x0C then ascii "\\f"
  else if b = 0x0D then ascii "\\r"
  else if b = 0x22 then ascii "\\\""
  else if b = 0x5C then ascii "\\\\"
  else if b.toNat < 0x20 then
    ascii "\\u00" ++ [hexDigit (b.toNat / 16), hexDigit (b.toNat % 16)]
  else [b]

def dumpString (s : Bytes) : Except Error Bytes :=
  if validUtf8 s then .ok (ascii "\"" ++ s.flatMap escapeByte ++ ascii "\"") else .error .notUtf8

def dumpInt (i : Int) : Bytes :=
  if i < 0 then ascii "-" ++ decimal i.natAbs else decimal i.natAbs

def separated : List Bytes → Bytes
  | [] => []
  | [s] => s
  | s :: t :: rest => s ++ ascii "," ++ separated (t :: rest)

mutual

def dump : Json → Except Error Bytes
  | .null => .ok (ascii "null")
  | .bool b => .ok (if b then ascii "true" else ascii "false")
  | .int i => .ok (dumpInt i)
  | .float text => .ok text
  | .str s => dumpString s
  | .arr items => do
    let parts ← dumpItems items
    .ok (ascii "[" ++ separated parts ++ ascii "]")
  | .obj fields => do
    let parts ← dumpFields fields
    .ok (ascii "\x7b" ++ separated parts ++ ascii "\x7d")

def dumpItems : List Json → Except Error (List Bytes)
  | [] => .ok []
  | j :: js => do
    let part ← j.dump
    let parts ← dumpItems js
    .ok (part :: parts)

def dumpFields : List (Bytes × Json) → Except Error (List Bytes)
  | [] => .ok []
  | (k, j) :: fs => do
    let key ← dumpString k
    let part ← j.dump
    let parts ← dumpFields fs
    .ok ((key ++ ascii ":" ++ part) :: parts)

end

mutual

/-- Every string of the value, keys included, is UTF-8. -/
def encodable : Json → Bool
  | .str s => validUtf8 s
  | .arr items => encodableItems items
  | .obj fields => encodableFields fields
  | _ => true

def encodableItems : List Json → Bool
  | [] => true
  | j :: js => j.encodable && encodableItems js

def encodableFields : List (Bytes × Json) → Bool
  | [] => true
  | (k, j) :: fs => validUtf8 k && j.encodable && encodableFields fs

end

theorem dumpString_isOk (s : Bytes) : (dumpString s).isOk = validUtf8 s := by
  unfold dumpString
  split <;> simp_all [Except.isOk, Except.toBool]

theorem hexDigit_ge {n : Nat} (h : n < 16) : 48 ≤ (hexDigit n).toNat := by
  rw [hexDigit]
  split
  · rw [UInt8.toNat_ofNat']
    omega
  · rw [UInt8.toNat_ofNat']
    omega

/-- No control character stands in an encoded string. -/
theorem control_notMem_escapeByte {c : UInt8} (hc : c < 32) (b : UInt8) : c ∉ escapeByte b := by
  have hplain : ∀ s ∈ [ascii "\\b", ascii "\\t", ascii "\\n", ascii "\\f", ascii "\\r",
      ascii "\\\"", ascii "\\\\", ascii "\\u00"], ∀ d ∈ s, 32 ≤ d := by decide +kernel
  have hnot : ∀ s ∈ [ascii "\\b", ascii "\\t", ascii "\\n", ascii "\\f", ascii "\\r",
      ascii "\\\"", ascii "\\\\", ascii "\\u00"], c ∉ s := fun s hs h =>
    absurd (hplain s hs c h) (UInt8.not_le.mpr hc)
  rw [UInt8.lt_iff_toNat_lt] at hc
  have hdigit : ∀ n, n < 16 → c ≠ hexDigit n := by
    rintro n hn rfl
    have hge := hexDigit_ge hn
    have hctl : (hexDigit n).toNat < 32 := hc
    omega
  unfold escapeByte
  split_ifs with h1 h2 h3 h4 h5 h6 h7 h8
  · exact hnot _ (by simp)
  · exact hnot _ (by simp)
  · exact hnot _ (by simp)
  · exact hnot _ (by simp)
  · exact hnot _ (by simp)
  · exact hnot _ (by simp)
  · exact hnot _ (by simp)
  · have hhigh := hdigit (b.toNat / 16) (by omega)
    have hlow := hdigit (b.toNat % 16) (by omega)
    simp only [List.mem_append, List.mem_cons, List.not_mem_nil, or_false, not_or]
    exact ⟨hnot _ (by simp), hhigh, hlow⟩
  · rintro h
    rw [List.mem_singleton] at h
    rw [h] at hc
    exact h8 hc

theorem control_notMem_quoted {c : UInt8} (hc : c < 32) (s : Bytes) :
    c ∉ ascii "\"" ++ s.flatMap escapeByte ++ ascii "\"" := by
  have hquote : ascii "\"" = [34] := by decide
  intro h
  simp only [hquote, List.mem_append, List.mem_flatMap, List.mem_singleton] at h
  rcases h with (rfl | ⟨b, -, h⟩) | rfl
  · exact absurd hc (by decide)
  · exact control_notMem_escapeByte hc b h
  · exact absurd hc (by decide)

theorem isOk_bind {α β : Type} (x : Except Error α) (f : α → Except Error β) (p : Bool)
    (h : ∀ a, x = .ok a → (f a).isOk = p) : (x >>= f).isOk = (x.isOk && p) := by
  cases x with
  | error e => rfl
  | ok a =>
    have hp := h a rfl
    simpa [Except.isOk, Except.toBool, bind, Except.bind] using hp

mutual

theorem dump_isOk (j : Json) : j.dump.isOk = j.encodable := by
  cases j with
  | null => rfl
  | bool b => rfl
  | int i => rfl
  | float text => rfl
  | str s => exact dumpString_isOk s
  | arr items =>
    rw [dump, isOk_bind _ _ true (fun _ _ => rfl), dumpItems_isOk items, encodable]
    simp
  | obj fields =>
    rw [dump, isOk_bind _ _ true (fun _ _ => rfl), dumpFields_isOk fields, encodable]
    simp

theorem dumpItems_isOk (items : List Json) :
    (dumpItems items).isOk = encodableItems items := by
  cases items with
  | nil => rfl
  | cons j js =>
    have htail : ∀ a, j.dump = .ok a →
        (dumpItems js >>= fun parts => Except.ok (a :: parts)).isOk = encodableItems js := by
      intro a _
      rw [isOk_bind _ _ true (fun _ _ => rfl), dumpItems_isOk js]
      simp
    rw [dumpItems, isOk_bind _ _ _ htail, dump_isOk j, encodableItems]

theorem dumpFields_isOk (fields : List (Bytes × Json)) :
    (dumpFields fields).isOk = encodableFields fields := by
  cases fields with
  | nil => rfl
  | cons f fs =>
    obtain ⟨k, j⟩ := f
    have htail : ∀ key part, (dumpFields fs >>= fun parts =>
        Except.ok ((key ++ ascii ":" ++ part) :: parts)).isOk = encodableFields fs := by
      intro key part
      rw [isOk_bind _ _ true (fun _ _ => rfl), dumpFields_isOk fs]
      simp
    rw [dumpFields, isOk_bind _ _ (j.encodable && encodableFields fs), dumpString_isOk,
      encodableFields, Bool.and_assoc]
    intro key _
    rw [isOk_bind _ _ _ (fun part _ => htail key part), dump_isOk j]

end

/-- `operator[]` on an object for reading, `null` elsewhere. -/
def field? (j : Json) (key : Bytes) : Option Json :=
  match j with
  | .obj fields => (fields.find? fun f => f.1 == key).map Prod.snd
  | _ => none

def contains (j : Json) (key : Bytes) : Bool := (j.field? key).isSome

/-- `value(key, default)` of an object. -/
def value (j : Json) (key : Bytes) (default : Json) : Json := (j.field? key).getD default

/-- `get<std::string>()`. -/
def getText : Json → Except Error Bytes
  | .str s => .ok s
  | _ => .error .wrongType

/-- `j == text`. -/
def isText (j : Json) (text : Bytes) : Bool :=
  match j with
  | .str s => s == text
  | _ => false

/-- `j[key] = v` on an object whose keys are kept in order. -/
def insertField (key : Bytes) (v : Json) : List (Bytes × Json) → List (Bytes × Json)
  | [] => [(key, v)]
  | (k, w) :: rest =>
    if key = k then (key, v) :: rest
    else if key < k then (key, v) :: (k, w) :: rest
    else (k, w) :: insertField key v rest

def set (j : Json) (key : Bytes) (v : Json) : Json :=
  match j with
  | .obj fields => .obj (insertField key v fields)
  | .null => .obj [(key, v)]
  | other => other

/-- An object from its fields, the first of two with one name winning. -/
def object (fields : List (Bytes × Json)) : Json :=
  .obj (fields.foldr (fun f acc => insertField f.1 f.2 acc) [])

theorem find?_insertField (key k : Bytes) (v : Json) (fields : List (Bytes × Json)) :
    ((insertField k v fields).find? fun f => f.1 == key) =
      if k = key then some (k, v) else fields.find? fun f => f.1 == key := by
  induction fields with
  | nil =>
    by_cases h : k = key <;> simp [insertField, h]
  | cons f rest ih =>
    obtain ⟨k', w⟩ := f
    rw [insertField]
    by_cases hk : k = k'
    · subst hk
      by_cases h : k = key <;> simp [h]
    · rw [if_neg hk]
      split
      · by_cases h : k = key <;> simp [h]
      · rw [List.find?_cons, ih]
        by_cases h' : k' = key
        · have hne : k ≠ key := fun h => hk (h.trans h'.symm)
          simp [h', hne]
        · have hb : (k' == key) = false := by simpa using h'
          simp [hb]

/-- A field of an object made of given fields. -/
theorem field?_object (fields : List (Bytes × Json)) (key : Bytes) :
    (object fields).field? key = fields.lookup key := by
  induction fields with
  | nil => rfl
  | cons f rest ih =>
    obtain ⟨k, v⟩ := f
    simp only [object, field?, List.foldr_cons, find?_insertField] at ih ⊢
    by_cases h : k = key
    · simp [h]
    · have hb : (key == k) = false := by simpa using Ne.symm h
      rw [if_neg h, ih, List.lookup_cons, hb]

theorem encodableItems_eq (items : List Json) : encodableItems items = items.all encodable := by
  induction items with
  | nil => rfl
  | cons j js ih => rw [encodableItems, ih, List.all_cons]

theorem encodableFields_insertField {key : Bytes} {v : Json} {fields : List (Bytes × Json)}
    (h : key ∉ fields.map Prod.fst) :
    encodableFields (insertField key v fields) =
      (validUtf8 key && v.encodable && encodableFields fields) := by
  induction fields with
  | nil => simp [insertField, encodableFields]
  | cons f rest ih =>
    obtain ⟨k, w⟩ := f
    simp only [List.map_cons, List.mem_cons, not_or] at h
    rw [insertField, if_neg h.1]
    split
    · rfl
    · simp only [encodableFields, ih h.2]
      ac_rfl

theorem keys_insertField {key k : Bytes} {v : Json} {fields : List (Bytes × Json)}
    (h : k ∈ (insertField key v fields).map Prod.fst) : k = key ∨ k ∈ fields.map Prod.fst := by
  induction fields with
  | nil => simpa [insertField] using h
  | cons f rest ih =>
    obtain ⟨k', w⟩ := f
    rw [insertField] at h
    split at h
    · rename_i heq
      subst heq
      exact .inr h
    · split at h
      · simpa using h
      · rcases List.mem_cons.mp h with heq | hmem
        · exact .inr (heq ▸ List.mem_cons_self)
        · exact (ih hmem).imp_right (List.mem_cons_of_mem k')

theorem keys_foldr_insertField {k : Bytes} {fields : List (Bytes × Json)}
    (h : k ∈ (fields.foldr (fun f acc => insertField f.1 f.2 acc) []).map Prod.fst) :
    k ∈ fields.map Prod.fst := by
  induction fields with
  | nil => exact h
  | cons f rest ih =>
    rcases keys_insertField h with heq | hmem
    · exact heq ▸ List.mem_cons_self
    · exact List.mem_cons_of_mem f.1 (ih hmem)

/-- An object whose fields have different names is encoded where each of them is. -/
theorem encodable_object {fields : List (Bytes × Json)} (h : (fields.map Prod.fst).Nodup) :
    (object fields).encodable = fields.all fun f => validUtf8 f.1 && f.2.encodable := by
  rw [object, encodable]
  induction fields with
  | nil => rfl
  | cons f rest ih =>
    obtain ⟨hkey, hrest⟩ := List.nodup_cons.mp h
    rw [List.foldr_cons,
      encodableFields_insertField (fun hmem => hkey (keys_foldr_insertField hmem)), ih hrest,
      List.all_cons]

/-! Reads that name what they find in their errors -/

def typeName : Json → Bytes
  | .null => ascii "null"
  | .bool _ => ascii "boolean"
  | .int _ => ascii "number"
  | .float _ => ascii "number"
  | .str _ => ascii "string"
  | .arr _ => ascii "array"
  | .obj _ => ascii "object"

/-- `what()` of a read of the wrong type. -/
def typeError (wanted : String) (j : Json) : Bytes :=
  ascii "[json.exception.type_error.302] type must be " ++ ascii wanted ++
    ascii ", but is " ++ typeName j

def getString : Json → Except Bytes Bytes
  | .str s => .ok s
  | j => .error (typeError "string" j)

def getBoolean : Json → Except Bytes Bool
  | .bool b => .ok b
  | j => .error (typeError "boolean" j)

/-- `get<long long>()` of an integer. -/
def getInt64 : Json → Except Bytes Int64
  | .int i => .ok (Int64.ofInt i)
  | j => .error (typeError "number" j)

/-- `at(key)`. -/
def atKey (j : Json) (key : String) : Except Bytes Json :=
  match j with
  | .obj _ =>
    match j.field? (ascii key) with
    | some v => .ok v
    | none =>
      .error (ascii "[json.exception.out_of_range.403] key '" ++ ascii key ++ ascii "' not found")
  | _ => .error (ascii "[json.exception.type_error.304] cannot use at() with " ++ typeName j)

theorem atKey_object {fields : List (Bytes × Json)} {key : String} {v : Json}
    (h : fields.lookup (ascii key) = some v) : (object fields).atKey key = .ok v := by
  have hfield := field?_object fields (ascii key)
  rw [h] at hfield
  simp only [object, atKey] at hfield ⊢
  rw [hfield]

/-! Reads one after the other -/

theorem of_bind_ok {α β ε : Type} {x : Except ε α} {f : α → Except ε β} {b : β}
    (h : (x >>= f) = .ok b) : ∃ a, x = .ok a ∧ f a = .ok b := by
  cases x with
  | error e => cases h
  | ok a => exact ⟨a, rfl, h⟩

theorem of_mapError_ok {α ε ε' : Type} {x : Except ε α} {f : ε → ε'} {a : α}
    (h : x.mapError f = .ok a) : x = .ok a := by
  cases x with
  | error e => cases h
  | ok b => exact congrArg Except.ok (Except.ok.inj h)

theorem str_of_getString {j : Json} {text : Bytes} (h : j.getString = .ok text) :
    j = .str text := by
  cases j with
  | str s => rw [Except.ok.inj h]
  | _ => cases h

end Json
