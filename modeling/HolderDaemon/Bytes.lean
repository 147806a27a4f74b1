import Mathlib

/-!
Byte strings, the way a C++ `std::string` holds text: decimal numerals as `std::to_string`
writes them and `std::from_chars` reads them, and the UTF-8 automaton.
-/

set_option autoImplicit false

abbrev Bytes := List UInt8

namespace Bytes

instance : LawfulBEq Bytes := List.instLawfulBEq

/-- The bytes of a literal. -/
def ascii (s : String) : Bytes := s.toByteArray.data.toList

theorem ascii_inj {s t : String} : ascii s = ascii t ↔ s = t := by
  rw [← String.toByteArray_inj]
  constructor
  · exact fun h => ByteArray.ext (Array.toList_inj.mp h)
  · exact fun h => congrArg (fun a : ByteArray => a.data.toList) h

@[simp] theorem ascii_beq (s t : String) : (ascii s == ascii t) = (s == t) := by
  rw [Bool.eq_iff_iff, beq_iff_eq, beq_iff_eq]
  exact ascii_inj

/-- A string as SQLite binds it from `c_str()`: no NUL in it. -/
@[ext] structure Text where
  val : Bytes
  noNul : (0 : UInt8) ∉ val
  deriving DecidableEq

/-- The bytes before the first NUL. -/
def cString (s : Bytes) : Text where
  val := s.takeWhile fun b => b ≠ 0
  noNul h := by simpa using List.mem_takeWhile_imp h

theorem val_cString {s : Bytes} (h : (0 : UInt8) ∉ s) : (cString s).val = s := by
  refine List.takeWhile_eq_self_iff.mpr fun b hb => ?_
  have hne : b ≠ 0 := fun h0 => h (h0 ▸ hb)
  simpa using hne

@[simp] theorem cString_val (t : Text) : cString t.val = t := by
  ext1
  exact val_cString t.noNul

/-! Decimal numerals -/

def digit (d : Nat) : UInt8 := UInt8.ofNat (48 + d)

def isDigit (b : UInt8) : Bool := 48 ≤ b.toNat && b.toNat ≤ 57

def decimal (n : Nat) : Bytes := (Nat.toDigits 10 n).map fun c => UInt8.ofNat c.toNat

def decimalValue (s : Bytes) : Nat := s.foldl (fun v b => 10 * v + (b.toNat - 48)) 0

/-- `std::from_chars` over a whole range: digits only, at least one, and below the bound. -/
def fromChars (bound : Nat) (s : Bytes) : Option Nat :=
  if s ≠ [] ∧ s.all isDigit ∧ decimalValue s < bound then some (decimalValue s) else none

theorem decimal_of_lt {n : Nat} (h : n < 10) : decimal n = [digit n] := by
  have hd := Nat.toNat_digitChar_of_lt_ten h
  simp [decimal, Nat.toDigits_of_lt_base h, digit, hd]

theorem decimal_of_ge {n : Nat} (h : 10 ≤ n) :
    decimal n = decimal (n / 10) ++ [digit (n % 10)] := by
  have hd := Nat.toNat_digitChar_of_lt_ten (Nat.mod_lt n (by decide : 0 < 10))
  simp [decimal, Nat.toDigits_of_base_le (by decide) h, digit, hd]

theorem digit_toNat {d : Nat} (h : d < 10) : (digit d).toNat = 48 + d := by
  simp [digit]
  omega

theorem isDigit_digit {d : Nat} (h : d < 10) : isDigit (digit d) = true := by
  simp [isDigit, digit_toNat h]
  omega

@[simp] theorem decimal_ne_nil (n : Nat) : decimal n ≠ [] := by
  simp [decimal]

theorem decimalValue_append (s : Bytes) (b : UInt8) :
    decimalValue (s ++ [b]) = 10 * decimalValue s + (b.toNat - 48) := by
  simp [decimalValue]

@[simp] theorem decimalValue_decimal (n : Nat) : decimalValue (decimal n) = n := by
  induction n using Nat.strongRecOn with
  | ind n ih =>
    by_cases h : n < 10
    · rw [decimal_of_lt h]
      simp [decimalValue, digit_toNat h]
    · have hm := Nat.mod_lt n (by decide : 0 < 10)
      rw [decimal_of_ge (by omega), decimalValue_append, ih (n / 10) (by omega), digit_toNat hm]
      omega

theorem all_isDigit_decimal (n : Nat) : (decimal n).all isDigit = true := by
  induction n using Nat.strongRecOn with
  | ind n ih =>
    by_cases h : n < 10
    · simp [decimal_of_lt h, isDigit_digit h]
    · have hm := Nat.mod_lt n (by decide : 0 < 10)
      rw [decimal_of_ge (by omega), List.all_append, ih (n / 10) (by omega)]
      simp [isDigit_digit hm]

/-! UTF-8 -/

/-- The states of the decoder: between characters, or owing continuation bytes. -/
inductive Utf8 where
  | accept | one | two | three | e0 | ed | f0 | f4
  deriving DecidableEq, Repr

def within (b : UInt8) (lo hi : Nat) (next : Utf8) : Option Utf8 :=
  if lo ≤ b.toNat ∧ b.toNat ≤ hi then some next else none

def Utf8.first (b : UInt8) : Option Utf8 :=
  if b.toNat < 0x80 then some .accept
  else if b.toNat < 0xC2 then none
  else if b.toNat < 0xE0 then some .one
  else if b.toNat = 0xE0 then some .e0
  else if b.toNat = 0xED then some .ed
  else if b.toNat < 0xF0 then some .two
  else if b.toNat = 0xF0 then some .f0
  else if b.toNat < 0xF4 then some .three
  else if b.toNat = 0xF4 then some .f4
  else none

def Utf8.next : Utf8 → UInt8 → Option Utf8
  | .accept, b => Utf8.first b
  | .one, b => within b 0x80 0xBF .accept
  | .two, b => within b 0x80 0xBF .one
  | .three, b => within b 0x80 0xBF .two
  | .e0, b => within b 0xA0 0xBF .one
  | .ed, b => within b 0x80 0x9F .one
  | .f0, b => within b 0x90 0xBF .two
  | .f4, b => within b 0x80 0x8F .two

def Utf8.scan : Utf8 → Bytes → Option Utf8
  | q, [] => some q
  | q, b :: s => (q.next b).bind fun r => r.scan s

def validUtf8 (s : Bytes) : Bool := decide (Utf8.scan .accept s = some .accept)

theorem Utf8.scan_append (q : Utf8) (s t : Bytes) :
    q.scan (s ++ t) = (q.scan s).bind fun r => r.scan t := by
  induction s generalizing q with
  | nil => rfl
  | cons b s ih =>
    simp only [List.cons_append, scan, Option.bind_assoc]
    congr 1
    funext r
    exact ih r

theorem validUtf8_append {s t : Bytes} (hs : validUtf8 s = true) (ht : validUtf8 t = true) :
    validUtf8 (s ++ t) = true := by
  simp only [validUtf8, decide_eq_true_eq] at *
  simp [Utf8.scan_append, hs, ht]

theorem Utf8.accept_of_next {q r : Utf8} {b : UInt8} (hb : b.toNat < 0x80)
    (h : q.next b = some r) : q = .accept ∧ r = .accept := by
  cases q with
  | accept =>
    simp only [Utf8.next, Utf8.first, if_pos hb, Option.some.injEq] at h
    exact ⟨rfl, h.symm⟩
  | _ =>
    simp only [Utf8.next, within] at h
    split at h
    · omega
    · cases h

/-- A byte below 128 is a character of its own. -/
theorem validUtf8_split {s t : Bytes} {b : UInt8} (hb : b.toNat < 0x80)
    (h : validUtf8 (s ++ b :: t) = true) : validUtf8 s = true ∧ validUtf8 t = true := by
  simp only [validUtf8, decide_eq_true_eq, Utf8.scan_append] at h ⊢
  obtain ⟨q, hq, hrest⟩ := Option.bind_eq_some_iff.mp h
  obtain ⟨r, hr, hscan⟩ := Option.bind_eq_some_iff.mp hrest
  obtain ⟨rfl, rfl⟩ := Utf8.accept_of_next hb hr
  exact ⟨hq, hscan⟩

theorem validUtf8_cString {s : Bytes} (h : validUtf8 s = true) :
    validUtf8 (cString s).val = true := by
  by_cases hmem : (0 : UInt8) ∈ s
  · obtain ⟨t, u, rfl, hnot⟩ := List.eq_append_cons_of_mem hmem
    have hcut : (cString (t ++ 0 :: u)).val = t := by
      have ht : ∀ b ∈ t, decide (b ≠ 0) = true := fun b hb =>
        decide_eq_true fun h0 => hnot (h0 ▸ hb)
      simp only [cString, List.takeWhile_append_of_pos ht]
      simp
    rw [hcut]
    exact (validUtf8_split (by decide) h).1
  · rwa [val_cString hmem]

end Bytes
