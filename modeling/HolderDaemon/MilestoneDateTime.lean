import HolderDaemon.Bytes
import HolderDaemon.Civil
import HolderDaemon.Json

/-!
The times of milestones at the command line (`cli/commands/MilestoneDateTime.cpp`): RFC 3339
timestamps, read at fixed positions, and dates of the local calendar.
-/

set_option autoImplicit false

open Bytes
open Json (of_bind_ok)

namespace HolderDaemon

namespace MilestoneDateTime

/-- `std::invalid_argument`, or a read past the end of the string. -/
inductive Fault where
  | invalidArgument (what : Bytes)
  | pastEnd
  deriving DecidableEq

def invalid {α : Type} (what : String) : Except Fault α := .error (.invalidArgument (ascii what))

/-- `value[i]`. -/
def charAt (value : Bytes) (i : Nat) : Except Fault UInt8 :=
  match value[i]? with
  | some b => .ok b
  | none => .error .pastEnd

def expect (value : Bytes) (i : Nat) (allowed : Bytes) (what : String) : Except Fault Unit := do
  let b ← charAt value i
  if b ∈ allowed then .ok () else invalid what

def digitsLoop (value : Bytes) : Nat → Nat → Nat → Except Fault Nat
  | _, 0, result => .ok result
  | i, n + 1, result => do
    let b ← charAt value i
    if isDigit b then digitsLoop value (i + 1) n (10 * result + (b.toNat - 48))
    else invalid "expected a digit"

def digits (value : Bytes) (position count : Nat) : Except Fault Nat :=
  if position + count > value.length then invalid "date/time is incomplete"
  else digitsLoop value position count 0

structure CivilDate where
  year : Int
  month : Nat
  day : Nat

/-- `checked_ymd`, and the days of `sys_days`. -/
def checkedYmd (date : CivilDate) : Except Fault Civil.Date :=
  if h : Civil.Valid date.year date.month date.day then .ok ⟨date.year, date.month, date.day, h⟩
  else invalid "calendar date is invalid"

inductive MilestoneWhenKind where
  | timed | allDay
  deriving DecidableEq

structure ParsedMilestoneWhen where
  epochSeconds : Int
  kind : MilestoneWhenKind
  deriving DecidableEq

/-- The digits of a fraction are skipped, at most as many as there are letters left. -/
def skipDigits (value : Bytes) : Nat → Nat → Except Fault Nat
  | 0, position => .ok position
  | n + 1, position =>
    if position < value.length then do
      let b ← charAt value position
      if isDigit b then skipDigits value n (position + 1) else .ok position
    else .ok position

/-- `position < value.size()` and one of these letters there. -/
def standsAt (value : Bytes) (position : Nat) (letters : Bytes) : Except Fault Bool :=
  if position < value.length then do
    let b ← charAt value position
    .ok (decide (b ∈ letters))
  else .ok false

/-- The position after the fraction, if there is one. -/
def skipFraction (value : Bytes) (position : Nat) : Except Fault Nat := do
  if ← standsAt value position (ascii ".") then
    let stop ← skipDigits value (value.length - (position + 1)) (position + 1)
    if stop = position + 1 then invalid "fraction is empty" else .ok stop
  else .ok position

/-- The offset in seconds, and the position after it. -/
def readOffset (value : Bytes) (position : Nat) : Except Fault (Int × Nat) := do
  if ← standsAt value position (ascii "Zz") then .ok (0, position + 1)
  else if position + 6 ≠ value.length then invalid "explicit UTC offset is required"
  else
    expect value position (ascii "+-") "explicit UTC offset is required"
    expect value (position + 3) (ascii ":") "explicit UTC offset is required"
    let hour ← digits value (position + 1) 2
    let minute ← digits value (position + 4) 2
    if hour > 23 ∨ minute > 59 then invalid "UTC offset is invalid"
    else
      let offset : Int := (hour * 60 + minute : Nat) * 60
      let sign ← charAt value position
      .ok (if sign = 45 then -offset else offset, position + 6)

/-- The seconds of `parse_rfc3339`, inside of its `try`. -/
def parseSeconds (value : Bytes) : Except Fault Int := do
  if value.length < 20 then invalid "invalid shape"
  else
    expect value 4 (ascii "-") "invalid shape"
    expect value 7 (ascii "-") "invalid shape"
    expect value 10 (ascii "Tt") "invalid shape"
    expect value 13 (ascii ":") "invalid shape"
    expect value 16 (ascii ":") "invalid shape"
    let year ← digits value 0 4
    let month ← digits value 5 2
    let day ← digits value 8 2
    let ymd ← checkedYmd ⟨year, month, day⟩
    let hour ← digits value 11 2
    let minute ← digits value 14 2
    let second ← digits value 17 2
    if hour > 23 ∨ minute > 59 ∨ second > 59 then invalid "clock time is invalid"
    else
      let position ← skipFraction value 19
      let (offset, stop) ← readOffset value position
      if stop ≠ value.length then invalid "trailing characters"
      else .ok (ymd.number * 86400 + (hour * 3600 + minute * 60 + second : Nat) - offset)

def whenMessage : Bytes :=
  ascii "WHEN must be YYYY-MM-DD or an RFC 3339 timestamp with an explicit offset."

def parseRfc3339 (value : Bytes) : Except Fault ParsedMilestoneWhen :=
  match parseSeconds value with
  | .ok epochSeconds => .ok ⟨epochSeconds, .timed⟩
  | .error (.invalidArgument _) => .error (.invalidArgument whenMessage)
  | .error .pastEnd => .error .pastEnd

/-! The local calendar -/

/-- `std::tm`; `year` counts from 0. -/
structure Tm where
  year : Int
  mon : Nat
  mday : Nat
  hour : Nat
  min : Nat
  sec : Nat

/-- `localtime_r` and `mktime`. -/
structure LocalZone where
  localTime : Int → Option Tm
  mktime : Tm → Option Int

def LocalZone.time (zone : LocalZone) (epochSeconds : Int) : Except Fault Tm :=
  match zone.localTime epochSeconds with
  | some tm => .ok tm
  | none => invalid "date/time is outside the platform time range"

def LocalZone.midnight (zone : LocalZone) (date : CivilDate) : Except Fault Int := do
  match zone.mktime ⟨date.year, date.month - 1, date.day, 0, 0, 0⟩ with
  | none => invalid "local calendar date is outside the platform time range"
  | some epoch =>
    let back ← zone.time epoch
    if back.year ≠ date.year ∨ back.mon ≠ date.month - 1 ∨ back.mday ≠ date.day ∨ back.hour ≠ 0 ∨
        back.min ≠ 0 ∨ back.sec ≠ 0 then
      invalid "local calendar date has no representable midnight"
    else .ok epoch

def dateShape (value : Bytes) : Except Fault Bool :=
  if value.length = 10 then do
    if ← standsAt value 4 (ascii "-") then standsAt value 7 (ascii "-") else .ok false
  else .ok false

def parseDate (value : Bytes) : Except Fault CivilDate := do
  let year ← digits value 0 4
  let month ← digits value 5 2
  let day ← digits value 8 2
  let date : CivilDate := ⟨year, month, day⟩
  let _ ← checkedYmd date
  .ok date

def parseMilestoneWhen (zone : LocalZone) (value : Bytes) : Except Fault ParsedMilestoneWhen := do
  if ← dateShape value then .ok ⟨← zone.midnight (← parseDate value), .allDay⟩
  else parseRfc3339 value

/-- `std::setw(2)` with zeros. -/
def padded (n : Nat) : Bytes := List.replicate (2 - (decimal n).length) 48 ++ decimal n

def decimalInt (i : Int) : Bytes := if i < 0 then 45 :: decimal i.natAbs else decimal i.natAbs

/-- `%Y-%m-%d` of `std::put_time`. -/
def putDate (tm : Tm) : Bytes :=
  decimalInt tm.year ++ 45 :: padded (tm.mon + 1) ++ 45 :: padded tm.mday

/-- `%Y-%m-%dT%H:%M:%S`. -/
def putDateTime (tm : Tm) : Bytes :=
  putDate tm ++ 84 :: padded tm.hour ++ 58 :: padded tm.min ++ 58 :: padded tm.sec

/-- What the clock on the wall shows, in seconds. -/
def Tm.civilSeconds (tm : Tm) : Int :=
  Civil.dayNumber tm.year (tm.mon + 1) tm.mday * 86400 +
    (tm.hour * 3600 + tm.min * 60 + tm.sec : Nat)

def putOffset (offset : Int) : Bytes :=
  (if offset < 0 then 45 else 43) ::
    padded (offset.natAbs / 3600) ++ 58 :: padded (offset.natAbs / 60 % 60)

def formatMilestoneWhen (zone : LocalZone) (epochSeconds : Int) (allDay : Bool) :
    Except Fault Bytes := do
  let tm ← zone.time epochSeconds
  if allDay then .ok (putDate tm)
  else
    let _ ← checkedYmd ⟨tm.year, tm.mon + 1, tm.mday⟩
    .ok (putDateTime tm ++ putOffset (tm.civilSeconds - epochSeconds))

/-! Timestamps -/

/-- A number in `n` digits, with zeros before it. -/
def fixed : Nat → Nat → Bytes
  | 0, _ => []
  | n + 1, v => fixed n (v / 10) ++ [digit (v % 10)]

inductive Zone where
  | utc (letter : UInt8) (letter_mem : letter ∈ ascii "Zz")
  | offset (negative : Bool) (hour : Fin 24) (minute : Fin 60)

def Zone.render : Zone → Bytes
  | .utc letter _ => [letter]
  | .offset negative hour minute =>
    (if negative then 45 else 43) :: (fixed 2 hour ++ 58 :: fixed 2 minute)

def Zone.seconds : Zone → Int
  | .utc _ _ => 0
  | .offset negative hour minute =>
    let offset : Int := (hour.val * 60 + minute.val : Nat) * 60
    if negative then -offset else offset

structure Fraction where
  digits : Bytes
  nonempty : digits ≠ []
  all_digits : digits.all isDigit

def fractionText : Option Fraction → Bytes
  | none => []
  | some fraction => 46 :: fraction.digits

/-- An RFC 3339 timestamp without a leap second. -/
structure Timestamp where
  date : Civil.Date
  year_range : 0 ≤ date.year ∧ date.year ≤ 9999
  separator : UInt8
  separator_mem : separator ∈ ascii "Tt"
  hour : Fin 24
  minute : Fin 60
  second : Fin 60
  fraction : Option Fraction
  zone : Zone

def Timestamp.render (t : Timestamp) : Bytes :=
  fixed 4 t.date.year.toNat ++ 45 :: (fixed 2 t.date.month ++ 45 :: (fixed 2 t.date.day ++
    t.separator :: (fixed 2 t.hour ++ 58 :: (fixed 2 t.minute ++ 58 :: (fixed 2 t.second ++
      (fractionText t.fraction ++ t.zone.render))))))

/-- The Unix seconds, without the fraction. -/
def Timestamp.epochSeconds (t : Timestamp) : Int :=
  t.date.number * 86400 + (t.hour.val * 3600 + t.minute.val * 60 + t.second.val : Nat) -
    t.zone.seconds

/-- The days of it are those of every calendar that counts from the first of January 1970. -/
theorem Timestamp.epochSeconds_eq {days : Civil.Date → Int} (hepoch : days Civil.epoch = 0)
    (hnext : ∀ d : Civil.Date, days d.next = days d + 1) (t : Timestamp) :
    t.epochSeconds = days t.date * 86400 +
      (t.hour.val * 3600 + t.minute.val * 60 + t.second.val : Nat) - t.zone.seconds := by
  rw [Timestamp.epochSeconds, Civil.number_unique hepoch hnext]

/-! Numbers of a fixed width -/

theorem length_fixed (n v : Nat) : (fixed n v).length = n := by
  induction n generalizing v with
  | zero => rfl
  | succ n ih => rw [fixed, List.length_append, ih, List.length_singleton]

theorem all_isDigit_fixed (n v : Nat) : (fixed n v).all isDigit = true := by
  induction n generalizing v with
  | zero => rfl
  | succ n ih =>
    have hdigit := isDigit_digit (Nat.mod_lt v (by decide : 0 < 10))
    rw [fixed, List.all_append, ih, Bool.true_and, List.all_cons, hdigit, List.all_nil]
    rfl

theorem decimalValue_fixed {n v : Nat} (h : v < 10 ^ n) : decimalValue (fixed n v) = v := by
  induction n generalizing v with
  | zero =>
    rw [Nat.pow_zero] at h
    obtain rfl : v = 0 := by omega
    rfl
  | succ n ih =>
    have hhigh : v / 10 < 10 ^ n := by
      rw [Nat.pow_succ] at h
      omega
    rw [fixed, decimalValue_append, ih hhigh, digit_toNat (Nat.mod_lt v (by decide))]
    omega

theorem digit_of_isDigit {b : UInt8} (h : isDigit b = true) :
    digit (b.toNat - 48) = b ∧ b.toNat - 48 < 10 := by
  simp only [isDigit, Bool.and_eq_true, decide_eq_true_eq] at h
  refine ⟨?_, by omega⟩
  rw [digit, Nat.add_sub_cancel' h.1, UInt8.ofNat_toNat]

theorem fixed_decimalValue {s : Bytes} (h : s.all isDigit = true) :
    fixed s.length (decimalValue s) = s ∧ decimalValue s < 10 ^ s.length := by
  induction s using List.reverseRecOn with
  | nil => decide
  | append_singleton s b ih =>
    rw [List.all_append, Bool.and_eq_true, List.all_cons, List.all_nil, Bool.and_true] at h
    obtain ⟨hfixed, hlt⟩ := ih h.1
    obtain ⟨hdigit, hten⟩ := digit_of_isDigit h.2
    rw [List.length_append, List.length_singleton, fixed, decimalValue_append]
    have hdiv : (10 * decimalValue s + (b.toNat - 48)) / 10 = decimalValue s := by omega
    have hmod : (10 * decimalValue s + (b.toNat - 48)) % 10 = b.toNat - 48 := by omega
    rw [hdiv, hmod, hfixed, hdigit, Nat.pow_succ]
    exact ⟨rfl, by omega⟩

theorem decimal_eq_fixed {n v : Nat} (h : 10 ^ n ≤ v) (hlt : v < 10 ^ (n + 1)) :
    decimal v = fixed (n + 1) v := by
  induction n generalizing v with
  | zero =>
    rw [Nat.zero_add, Nat.pow_one] at hlt
    rw [decimal_of_lt hlt, fixed, fixed, List.nil_append, Nat.mod_eq_of_lt hlt]
  | succ n ih =>
    rw [Nat.pow_succ] at h hlt
    have hten : 10 ≤ v := by
      have hpos := Nat.pow_pos (n := n) (by decide : 0 < 10)
      omega
    rw [decimal_of_ge hten, ih (by omega) (by omega)]
    rfl

theorem padded_eq_fixed {v : Nat} (h : v < 100) : padded v = fixed 2 v := by
  have hall : ∀ v < 100, padded v = fixed 2 v := by decide +kernel
  exact hall v h

/-! Reads -/

section Reads
variable {value : Bytes}

theorem charAt_of {i : Nat} {b : UInt8} {rest : Bytes} (h : value.drop i = b :: rest) :
    charAt value i = .ok b := by
  have hread : value[i]? = some b := by rw [← List.head?_drop, h, List.head?_cons]
  rw [charAt, hread]

theorem charAt_ok {i : Nat} {b : UInt8} (h : charAt value i = .ok b) :
    value.drop i = b :: value.drop (i + 1) := by
  unfold charAt at h
  split at h
  · rename_i hread
    cases h
    obtain ⟨hlt, rfl⟩ := List.getElem?_eq_some_iff.mp hread
    exact List.drop_eq_getElem_cons hlt
  · cases h

theorem expect_of {i : Nat} {b : UInt8} {rest allowed : Bytes} (h : value.drop i = b :: rest)
    (hb : b ∈ allowed) (what : String) : expect value i allowed what = .ok () := by
  rw [expect, charAt_of h]
  exact if_pos hb

theorem expect_ok {i : Nat} {allowed : Bytes} {what : String}
    (h : expect value i allowed what = .ok ()) :
    ∃ b ∈ allowed, value.drop i = b :: value.drop (i + 1) := by
  obtain ⟨b, hread, h⟩ := of_bind_ok h
  split at h
  · rename_i hb
    exact ⟨b, hb, charAt_ok hread⟩
  · cases h

theorem expect_letter {i : Nat} {c : UInt8} {what : String}
    (h : expect value i [c] what = .ok ()) : value.drop i = c :: value.drop (i + 1) := by
  obtain ⟨b, hb, hdrop⟩ := expect_ok h
  rw [List.mem_singleton] at hb
  rwa [hb] at hdrop

theorem digitsLoop_of {digits rest : Bytes} (hdigits : digits.all isDigit = true) {i : Nat}
    (h : value.drop i = digits ++ rest) (result : Nat) :
    digitsLoop value i digits.length result =
      .ok (digits.foldl (fun v b => 10 * v + (b.toNat - 48)) result) := by
  induction digits generalizing i result with
  | nil => rfl
  | cons b digits ih =>
    rw [List.all_cons, Bool.and_eq_true] at hdigits
    have hrest : value.drop (i + 1) = digits ++ rest := by
      rw [← List.drop_drop, h]
      rfl
    rw [List.length_cons, digitsLoop, charAt_of h]
    exact (if_pos hdigits.1).trans (ih hdigits.2 hrest _)

theorem digitsLoop_ok {i n result v : Nat} (h : digitsLoop value i n result = .ok v) :
    ∃ digits : Bytes, digits.length = n ∧ digits.all isDigit = true ∧
      value.drop i = digits ++ value.drop (i + n) ∧
      v = digits.foldl (fun v b => 10 * v + (b.toNat - 48)) result := by
  induction n generalizing i result with
  | zero =>
    cases h
    exact ⟨[], rfl, rfl, rfl, rfl⟩
  | succ n ih =>
    obtain ⟨b, hread, h⟩ := of_bind_ok h
    split at h
    · rename_i hb
      obtain ⟨digits, hlength, hdigits, hdrop, hv⟩ := ih h
      refine ⟨b :: digits, by rw [List.length_cons, hlength], ?_, ?_, hv⟩
      · rw [List.all_cons, hb, hdigits, Bool.and_self]
      · rw [charAt_ok hread, hdrop, Nat.add_assoc, Nat.add_comm 1 n, List.cons_append]
    · cases h

theorem digits_of {p n v : Nat} {rest : Bytes} (hn : 0 < n) (hv : v < 10 ^ n)
    (h : value.drop p = fixed n v ++ rest) : digits value p n = .ok v := by
  have hlength := congrArg List.length h
  rw [List.length_drop, List.length_append, length_fixed] at hlength
  have hloop := digitsLoop_of (all_isDigit_fixed n v) h 0
  rw [length_fixed] at hloop
  rw [digits, if_neg (by omega), hloop]
  exact congrArg Except.ok (decimalValue_fixed hv)

theorem digits_ok {p n v : Nat} (h : digits value p n = .ok v) :
    v < 10 ^ n ∧ value.drop p = fixed n v ++ value.drop (p + n) := by
  unfold digits at h
  split at h
  · cases h
  · obtain ⟨digits, rfl, hdigits, hdrop, rfl⟩ := digitsLoop_ok h
    obtain ⟨hfixed, hlt⟩ := fixed_decimalValue hdigits
    exact ⟨hlt, hdrop.trans (congrArg (· ++ _) hfixed.symm)⟩

theorem standsAt_eq (position : Nat) (letters : Bytes) :
    standsAt value position letters =
      .ok ((value.drop position).head?.any fun b => decide (b ∈ letters)) := by
  unfold standsAt
  split
  · rename_i hlt
    have hdrop := List.drop_eq_getElem_cons hlt
    rw [charAt_of hdrop, hdrop]
    rfl
  · rename_i hge
    rw [List.drop_eq_nil_of_le (Nat.le_of_not_lt hge)]
    rfl

theorem skipDigits_eq {n position : Nat} (h : value.length ≤ position + n) :
    skipDigits value n position =
      .ok (position + ((value.drop position).takeWhile isDigit).length) := by
  induction n generalizing position with
  | zero =>
    rw [Nat.add_zero] at h
    rw [skipDigits, List.drop_eq_nil_of_le h]
    rfl
  | succ n ih =>
    rw [skipDigits]
    split
    · rename_i hlt
      have hdrop := List.drop_eq_getElem_cons hlt
      rw [charAt_of hdrop, hdrop, List.takeWhile_cons]
      change (if isDigit value[position] = true then _ else _) = _
      split
      · rw [ih (by omega), List.length_cons, Nat.add_assoc, Nat.add_comm 1]
      · rfl
    · rename_i hge
      rw [List.drop_eq_nil_of_le (Nat.le_of_not_lt hge)]
      rfl

theorem skipFraction_eq (position : Nat) :
    skipFraction value position =
      if (value.drop position).head? = some 46 then
        if (value.drop (position + 1)).takeWhile isDigit = [] then invalid "fraction is empty"
        else .ok (position + 1 + ((value.drop (position + 1)).takeWhile isDigit).length)
      else .ok position := by
  have hhead : ((value.drop position).head?.any fun b => decide (b ∈ ascii ".")) = true ↔
      (value.drop position).head? = some 46 := by
    have hdot : ascii "." = [46] := by decide
    rw [hdot]
    cases (value.drop position).head? with
    | none => exact iff_of_false (by nofun) (by nofun)
    | some b => simp
  rw [skipFraction, standsAt_eq, skipDigits_eq (by omega)]
  refine if_congr hhead (if_congr ?_ rfl rfl) rfl
  rw [Nat.add_eq_left, List.length_eq_zero_iff]

theorem skipFraction_of {fraction : Option Fraction} {rest : Bytes} {position : Nat}
    (h : value.drop position = fractionText fraction ++ rest)
    (hrest : ∀ b ∈ rest.head?, b ≠ 46 ∧ isDigit b = false) :
    skipFraction value position = .ok (position + (fractionText fraction).length) := by
  rw [skipFraction_eq]
  cases fraction with
  | none =>
    rw [fractionText, List.nil_append] at h
    have hhead : ¬ rest.head? = some 46 := fun hdot => (hrest 46 hdot).1 rfl
    rw [h, if_neg hhead]
    rfl
  | some fraction =>
    have hafter : value.drop (position + 1) = fraction.digits ++ rest := by
      rw [← List.drop_drop, h]
      rfl
    have hnone : rest.takeWhile isDigit = [] := by
      cases rest with
      | nil => rfl
      | cons b rest => rw [List.takeWhile_cons_of_neg (by rw [(hrest b rfl).2]; decide)]
    have hdigits : (fraction.digits ++ rest).takeWhile isDigit = fraction.digits := by
      rw [List.takeWhile_append_of_pos (List.all_eq_true.mp fraction.all_digits), hnone,
        List.append_nil]
    have hhead : (fractionText (some fraction) ++ rest).head? = some 46 := rfl
    rw [h, if_pos hhead, hafter, hdigits, if_neg fraction.nonempty, fractionText, List.length_cons,
      Nat.add_assoc, Nat.add_comm 1]

theorem skipFraction_ok {position stop : Nat} (h : skipFraction value position = .ok stop) :
    ∃ fraction, value.drop position = fractionText fraction ++ value.drop stop := by
  rw [skipFraction_eq] at h
  split at h
  · rename_i hhead
    split at h
    · cases h
    · rename_i hne
      cases h
      have hdot : value.drop position = 46 :: value.drop (position + 1) := by
        obtain ⟨rest, hrest⟩ := List.head?_eq_some_iff.mp hhead
        rw [hrest, ← List.drop_drop, hrest]
        rfl
      have hrun := List.prefix_iff_eq_append.mp
        (List.takeWhile_prefix isDigit (l := value.drop (position + 1)))
      rw [List.drop_drop] at hrun
      exact ⟨some ⟨_, hne, List.all_takeWhile⟩, hdot.trans (congrArg (46 :: ·) hrun.symm)⟩
  · cases h
    exact ⟨none, rfl⟩

/-! Offsets -/

theorem readOffset_of {zone : Zone} {position : Nat} (h : value.drop position = zone.render) :
    readOffset value position = .ok (zone.seconds, value.length) := by
  have hlength := congrArg List.length h
  rw [List.length_drop] at hlength
  cases zone with
  | utc letter letter_mem =>
    have hutc : ((value.drop position).head?.any fun b => decide (b ∈ ascii "Zz")) = true := by
      rw [h]
      exact decide_eq_true letter_mem
    rw [Zone.render, List.length_singleton] at hlength
    have hend : position + 1 = value.length := by omega
    rw [readOffset, standsAt_eq, hutc, ← hend]
    rfl
  | offset negative hour minute =>
    have hrender : value.drop position =
        (if negative then 45 else 43) :: (fixed 2 hour ++ 58 :: fixed 2 minute) := h
    have hutc : ((value.drop position).head?.any fun b => decide (b ∈ ascii "Zz")) = false := by
      rw [hrender]
      cases negative
      · rfl
      · rfl
    have hend : position + 6 = value.length := by
      rw [Zone.render, List.length_cons, List.length_append, List.length_cons, length_fixed,
        length_fixed] at hlength
      omega
    have hsign : (if negative then (45 : UInt8) else 43) ∈ ascii "+-" := by
      cases negative
      · decide
      · decide
    have hhour : value.drop (position + 1) = fixed 2 hour ++ 58 :: fixed 2 minute := by
      rw [← List.drop_drop, hrender]
      rfl
    have hcolon : value.drop (position + 3) = 58 :: fixed 2 minute := by
      rw [← List.drop_drop, hrender]
      rfl
    have hminute : value.drop (position + 4) = fixed 2 minute ++ [] := by
      rw [← List.drop_drop, hrender]
      rfl
    have hbounds : ¬ (hour.val > 23 ∨ minute.val > 59) := by omega
    have hhours : hour.val < 10 ^ 2 := by omega
    have hminutes : minute.val < 10 ^ 2 := by omega
    rw [readOffset, standsAt_eq, hutc]
    change (if position + 6 ≠ value.length then _ else _) = _
    rw [if_neg (not_not_intro hend), expect_of hrender hsign, expect_of hcolon (by decide),
      digits_of (by decide) hhours hhour, digits_of (by decide) hminutes hminute,
      charAt_of hrender]
    change (if hour.val > 23 ∨ minute.val > 59 then _ else _) = _
    rw [if_neg hbounds, ← hend]
    cases negative
    · rfl
    · rfl

theorem readOffset_ok {position stop : Nat} {offset : Int}
    (h : readOffset value position = .ok (offset, stop)) (hstop : stop = value.length) :
    ∃ zone : Zone, value.drop position = zone.render ∧ offset = zone.seconds := by
  rw [readOffset, standsAt_eq] at h
  change (if ((value.drop position).head?.any fun b => decide (b ∈ ascii "Zz")) = true then _
    else _) = _ at h
  split at h
  · rename_i hutc
    obtain ⟨b, hhead, hb⟩ := (Option.any_eq_true _ _).mp hutc
    cases h
    obtain ⟨rest, hrest⟩ := List.head?_eq_some_iff.mp hhead
    have hlength := congrArg List.length hrest
    rw [List.length_drop, List.length_cons, ← hstop] at hlength
    obtain rfl : rest = [] := List.eq_nil_of_length_eq_zero (by omega)
    exact ⟨.utc b (of_decide_eq_true hb), hrest, rfl⟩
  · split at h
    · cases h
    · obtain ⟨⟨⟩, hsign, h⟩ := of_bind_ok h
      obtain ⟨⟨⟩, hcolon, h⟩ := of_bind_ok h
      obtain ⟨hour, hhour, h⟩ := of_bind_ok h
      obtain ⟨minute, hminute, h⟩ := of_bind_ok h
      split at h
      · cases h
      · rename_i hend hbounds
        obtain ⟨sign, hread, h⟩ := of_bind_ok h
        cases h
        obtain ⟨b, hb, hdrop⟩ := expect_ok hsign
        have hfirst := charAt_ok hread
        obtain rfl : b = sign := (List.cons.inj (hdrop.symm.trans hfirst)).1
        have hcolon := expect_letter (c := 58) hcolon
        have hlast : value.drop (position + 4 + 2) = [] := List.drop_eq_nil_of_le hstop.ge
        have hhour := (digits_ok hhour).2
        have hminute := (digits_ok hminute).2
        rw [hlast, List.append_nil] at hminute
        rw [hcolon, hminute] at hhour
        rw [not_or] at hbounds
        refine ⟨.offset (decide (b = 45)) ⟨hour, by omega⟩ ⟨minute, by omega⟩, ?_, ?_⟩
        · have hsign_text : ascii "+-" = [43, 45] := by decide
          rw [hsign_text, List.mem_pair] at hb
          rw [hfirst, hhour]
          rcases hb with rfl | rfl
          · rfl
          · rfl
        · by_cases hminus : b = 45
          · simp [Zone.seconds, hminus]
          · simp [Zone.seconds, hminus]

/-! No read past the end -/

theorem ok_inside {α : Type} (a : α) : (Except.ok a : Except Fault α) ≠ .error .pastEnd := by
  intro h
  cases h

theorem invalid_inside {α : Type} (what : String) :
    (invalid what : Except Fault α) ≠ .error .pastEnd := by
  intro h
  cases h

theorem bind_inside {α β : Type} {x : Except Fault α} {f : α → Except Fault β}
    (hx : x ≠ .error .pastEnd) (hf : ∀ a, x = .ok a → f a ≠ .error .pastEnd) :
    (x >>= f) ≠ .error .pastEnd := by
  cases x with
  | error fault => exact fun h => hx (congrArg Except.error (Except.error.inj h))
  | ok a => exact hf a rfl

theorem charAt_inside {i : Nat} (h : i < value.length) : charAt value i ≠ .error .pastEnd := by
  rw [charAt_of (List.drop_eq_getElem_cons h)]
  exact ok_inside _

theorem expect_inside {i : Nat} (h : i < value.length) (allowed : Bytes) (what : String) :
    expect value i allowed what ≠ .error .pastEnd := by
  refine bind_inside (charAt_inside h) fun b _ => ?_
  split
  · exact ok_inside ()
  · exact invalid_inside what

theorem digitsLoop_inside {i n : Nat} (h : i + n ≤ value.length) (result : Nat) :
    digitsLoop value i n result ≠ .error .pastEnd := by
  induction n generalizing i result with
  | zero => exact ok_inside result
  | succ n ih =>
    refine bind_inside (charAt_inside (by omega)) fun b _ => ?_
    split
    · exact ih (by omega) _
    · exact invalid_inside _

theorem digits_inside (p n : Nat) : digits value p n ≠ .error .pastEnd := by
  unfold digits
  split
  · exact invalid_inside _
  · exact digitsLoop_inside (by omega) 0

theorem skipFraction_inside (position : Nat) : skipFraction value position ≠ .error .pastEnd := by
  rw [skipFraction_eq]
  split
  · split
    · exact invalid_inside _
    · exact ok_inside _
  · exact ok_inside position

theorem readOffset_inside (position : Nat) : readOffset value position ≠ .error .pastEnd := by
  rw [readOffset, standsAt_eq]
  refine bind_inside (ok_inside _) fun utc _ => ?_
  split
  · exact ok_inside _
  · split
    · exact invalid_inside _
    · refine bind_inside (expect_inside (by omega) _ _) fun _ _ => ?_
      refine bind_inside (expect_inside (by omega) _ _) fun _ _ => ?_
      refine bind_inside (digits_inside _ _) fun hour _ => ?_
      refine bind_inside (digits_inside _ _) fun minute _ => ?_
      split
      · exact invalid_inside _
      · exact bind_inside (charAt_inside (by omega)) fun sign _ => ok_inside _

theorem checkedYmd_inside (date : CivilDate) : checkedYmd date ≠ .error .pastEnd := by
  unfold checkedYmd
  split
  · exact ok_inside _
  · exact invalid_inside _

theorem parseSeconds_inside : parseSeconds value ≠ .error .pastEnd := by
  unfold parseSeconds
  split
  · exact invalid_inside _
  · refine bind_inside (expect_inside (by omega) _ _) fun _ _ => ?_
    refine bind_inside (expect_inside (by omega) _ _) fun _ _ => ?_
    refine bind_inside (expect_inside (by omega) _ _) fun _ _ => ?_
    refine bind_inside (expect_inside (by omega) _ _) fun _ _ => ?_
    refine bind_inside (expect_inside (by omega) _ _) fun _ _ => ?_
    refine bind_inside (digits_inside _ _) fun year _ => ?_
    refine bind_inside (digits_inside _ _) fun month _ => ?_
    refine bind_inside (digits_inside _ _) fun day _ => ?_
    refine bind_inside (checkedYmd_inside _) fun ymd _ => ?_
    refine bind_inside (digits_inside _ _) fun hour _ => ?_
    refine bind_inside (digits_inside _ _) fun minute _ => ?_
    refine bind_inside (digits_inside _ _) fun second _ => ?_
    split
    · exact invalid_inside _
    · refine bind_inside (skipFraction_inside _) fun position _ => ?_
      refine bind_inside (readOffset_inside _) ?_
      rintro ⟨offset, stop⟩ -
      dsimp only
      split
      · exact invalid_inside _
      · exact ok_inside _

/-! What is accepted -/

theorem checkedYmd_ok {date : CivilDate} {ymd : Civil.Date} (h : checkedYmd date = .ok ymd) :
    ymd.year = date.year ∧ ymd.month = date.month ∧ ymd.day = date.day := by
  unfold checkedYmd at h
  split at h
  · cases h
    exact ⟨rfl, rfl, rfl⟩
  · cases h

theorem parseSeconds_ok {epochSeconds : Int} (h : parseSeconds value = .ok epochSeconds) :
    ∃ t : Timestamp, t.render = value ∧ epochSeconds = t.epochSeconds := by
  unfold parseSeconds at h
  split at h
  · cases h
  · obtain ⟨⟨⟩, hdash, h⟩ := of_bind_ok h
    obtain ⟨⟨⟩, hdash', h⟩ := of_bind_ok h
    obtain ⟨⟨⟩, hseparator, h⟩ := of_bind_ok h
    obtain ⟨⟨⟩, hcolon, h⟩ := of_bind_ok h
    obtain ⟨⟨⟩, hcolon', h⟩ := of_bind_ok h
    obtain ⟨year, hyear, h⟩ := of_bind_ok h
    obtain ⟨month, hmonth, h⟩ := of_bind_ok h
    obtain ⟨day, hday, h⟩ := of_bind_ok h
    obtain ⟨ymd, hymd, h⟩ := of_bind_ok h
    obtain ⟨hour, hhour, h⟩ := of_bind_ok h
    obtain ⟨minute, hminute, h⟩ := of_bind_ok h
    obtain ⟨second, hsecond, h⟩ := of_bind_ok h
    split at h
    · cases h
    · rename_i hclock
      obtain ⟨position, hposition, h⟩ := of_bind_ok h
      obtain ⟨⟨offset, stop⟩, hoffset, h⟩ := of_bind_ok h
      dsimp only at h
      split at h
      · cases h
      · rename_i hstop
        replace h := Except.ok.inj h
        obtain ⟨hyear_lt, hyear⟩ := digits_ok hyear
        obtain ⟨separator, hseparator_mem, hseparator⟩ := expect_ok hseparator
        obtain ⟨fraction, hfraction⟩ := skipFraction_ok hposition
        obtain ⟨zone, hzone, rfl⟩ := readOffset_ok hoffset (not_not.mp hstop)
        have hdash := expect_letter (c := 45) hdash
        have hdash' := expect_letter (c := 45) hdash'
        have hcolon := expect_letter (c := 58) hcolon
        have hcolon' := expect_letter (c := 58) hcolon'
        obtain ⟨hdate_year, hdate_month, hdate_day⟩ := checkedYmd_ok hymd
        replace hdate_year : ymd.year = year := hdate_year
        have hyears : ymd.year.toNat = year := by rw [hdate_year, Int.toNat_natCast]
        refine ⟨⟨ymd, by omega, separator, hseparator_mem, ⟨hour, by omega⟩, ⟨minute, by omega⟩,
          ⟨second, by omega⟩, fraction, zone⟩, ?_, h.symm⟩
        have hwhole : value = value.drop 0 := rfl
        rw [hwhole, hyear, hdash, (digits_ok hmonth).2, hdash', (digits_ok hday).2, hseparator,
          (digits_ok hhour).2, hcolon, (digits_ok hminute).2, hcolon', (digits_ok hsecond).2,
          hfraction, hzone, Timestamp.render, hyears, hdate_month, hdate_day]

theorem checkedYmd_of (d : Civil.Date) : checkedYmd ⟨d.year, d.month, d.day⟩ = .ok d :=
  dif_pos d.valid

theorem head_zone (zone : Zone) : ∀ b ∈ zone.render.head?, b ≠ 46 ∧ isDigit b = false := by
  intro b hb
  cases zone with
  | utc letter letter_mem =>
    cases hb
    have hletters : ascii "Zz" = [90, 122] := by decide
    rw [hletters, List.mem_pair] at letter_mem
    rcases letter_mem with rfl | rfl
    · decide
    · decide
  | offset negative hour minute =>
    cases hb
    cases negative
    · decide
    · decide

theorem parseSeconds_render (t : Timestamp) : parseSeconds t.render = .ok t.epochSeconds := by
  obtain ⟨date, year_range, separator, separator_mem, hour, minute, second, fraction, zone⟩ := t
  have hyear : ((date.year.toNat : Nat) : Int) = date.year := Int.toNat_of_nonneg year_range.1
  have hmonth := date.month_range
  have hday := date.valid.2.trans (Civil.monthLength_le date.year date.month)
  generalize hvalue : Timestamp.render ⟨date, year_range, separator, separator_mem, hour, minute,
    second, fraction, zone⟩ = value
  rw [Timestamp.render] at hvalue
  dsimp only at hvalue
  have h0 : value.drop 0 = fixed 4 date.year.toNat ++ _ := hvalue.symm
  have h4 : value.drop 4 = 45 :: _ := congrArg (List.drop 4) hvalue.symm
  have h5 : value.drop 5 = fixed 2 date.month ++ _ := congrArg (List.drop 5) hvalue.symm
  have h7 : value.drop 7 = 45 :: _ := congrArg (List.drop 7) hvalue.symm
  have h8 : value.drop 8 = fixed 2 date.day ++ _ := congrArg (List.drop 8) hvalue.symm
  have h10 : value.drop 10 = separator :: _ := congrArg (List.drop 10) hvalue.symm
  have h11 : value.drop 11 = fixed 2 hour ++ _ := congrArg (List.drop 11) hvalue.symm
  have h13 : value.drop 13 = 58 :: _ := congrArg (List.drop 13) hvalue.symm
  have h14 : value.drop 14 = fixed 2 minute ++ _ := congrArg (List.drop 14) hvalue.symm
  have h16 : value.drop 16 = 58 :: _ := congrArg (List.drop 16) hvalue.symm
  have h17 : value.drop 17 = fixed 2 second ++ _ := congrArg (List.drop 17) hvalue.symm
  have h19 : value.drop 19 = fractionText fraction ++ zone.render :=
    congrArg (List.drop 19) hvalue.symm
  have hzone : value.drop (19 + (fractionText fraction).length) = zone.render := by
    rw [← List.drop_drop, h19, List.drop_left]
  have hlength : ¬ value.length < 20 := by
    have hpos : 0 < zone.render.length := by
      cases zone with
      | utc => exact Nat.one_pos
      | offset => exact Nat.succ_pos _
    have hrest := congrArg List.length hzone
    rw [List.length_drop] at hrest
    omega
  have hclock : ¬ (hour.val > 23 ∨ minute.val > 59 ∨ second.val > 59) := by omega
  have hstop : ¬ value.length ≠ value.length := not_not_intro rfl
  unfold parseSeconds
  rw [if_neg hlength, expect_of h4 (by decide), expect_of h7 (by decide),
    expect_of h10 separator_mem, expect_of h13 (by decide), expect_of h16 (by decide),
    digits_of (by decide) (by omega) h0, digits_of (by decide) (by omega) h5,
    digits_of (by decide) (by omega) h8]
  change (checkedYmd ⟨(date.year.toNat : Nat), date.month, date.day⟩ >>= _) = _
  rw [hyear, checkedYmd_of, digits_of (by decide) (by omega) h11,
    digits_of (by decide) (by omega) h14, digits_of (by decide) (by omega) h17]
  change (if hour.val > 23 ∨ minute.val > 59 ∨ second.val > 59 then _ else _) = _
  rw [if_neg hclock, skipFraction_of h19 (head_zone zone)]
  change (readOffset value (19 + (fractionText fraction).length) >>= _) = _
  rw [readOffset_of hzone]
  change (if value.length ≠ value.length then _ else _) = _
  rw [if_neg hstop]
  rfl

end Reads

/-! Exactness -/

theorem parseRfc3339_eq (value : Bytes) :
    parseRfc3339 value = match parseSeconds value with
      | .ok epochSeconds => .ok ⟨epochSeconds, .timed⟩
      | .error _ => .error (.invalidArgument whenMessage) := by
  rw [parseRfc3339]
  cases h : parseSeconds value with
  | ok epochSeconds => rfl
  | error fault =>
    cases fault with
    | invalidArgument what => rfl
    | pastEnd => exact absurd h parseSeconds_inside

/-- A text is accepted where it is a timestamp. -/
theorem parseRfc3339_ok_iff (value : Bytes) (result : ParsedMilestoneWhen) :
    parseRfc3339 value = .ok result ↔
      ∃ t : Timestamp, t.render = value ∧ result = ⟨t.epochSeconds, .timed⟩ := by
  rw [parseRfc3339_eq]
  constructor
  · intro h
    cases hseconds : parseSeconds value with
    | error fault =>
      rw [hseconds] at h
      cases h
    | ok epochSeconds =>
      rw [hseconds] at h
      cases h
      obtain ⟨t, hrender, rfl⟩ := parseSeconds_ok hseconds
      exact ⟨t, hrender, rfl⟩
  · rintro ⟨t, rfl, rfl⟩
    rw [parseSeconds_render]

/-- Every other one is refused with the same message. -/
theorem parseRfc3339_error_iff (value : Bytes) (fault : Fault) :
    parseRfc3339 value = .error fault ↔
      fault = .invalidArgument whenMessage ∧ ¬ ∃ t : Timestamp, t.render = value := by
  rw [parseRfc3339_eq]
  cases hseconds : parseSeconds value with
  | ok epochSeconds =>
    obtain ⟨t, hrender, -⟩ := parseSeconds_ok hseconds
    exact iff_of_false (by nofun) fun h => h.2 ⟨t, hrender⟩
  | error inner =>
    have hnone : ¬ ∃ t : Timestamp, t.render = value := by
      rintro ⟨t, rfl⟩
      rw [parseSeconds_render] at hseconds
      cases hseconds
    rw [and_iff_left hnone, Except.error.injEq, eq_comm]

/-- The ranges that the C library promises; the second 60 is a leap second. -/
def Tm.WellFormed (tm : Tm) : Prop :=
  Civil.Valid tm.year (tm.mon + 1) tm.mday ∧ tm.hour < 24 ∧ tm.min < 60 ∧ tm.sec ≤ 60

instance (tm : Tm) : Decidable tm.WellFormed := inferInstanceAs (Decidable (_ ∧ _ ∧ _ ∧ _))

/-- How far the clock on the wall is ahead of Unix time. -/
def Tm.offset (tm : Tm) (epochSeconds : Int) : Int := tm.civilSeconds - epochSeconds

def zoneOf (offset : Int) (h : offset.natAbs < 86400) : Zone :=
  .offset (decide (offset < 0)) ⟨offset.natAbs / 3600, by omega⟩
    ⟨offset.natAbs / 60 % 60, Nat.mod_lt _ (by decide)⟩

theorem zoneOf_render (offset : Int) (h : offset.natAbs < 86400) :
    (zoneOf offset h).render = putOffset offset := by
  have hhour : offset.natAbs / 3600 < 100 := by omega
  have hminute : offset.natAbs / 60 % 60 < 100 := by omega
  rw [putOffset, padded_eq_fixed hhour, padded_eq_fixed hminute, zoneOf, Zone.render,
    List.cons_append]
  simp only [decide_eq_true_eq]

theorem zoneOf_seconds {offset : Int} (h : offset.natAbs < 86400) (hminutes : 60 ∣ offset) :
    (zoneOf offset h).seconds = offset := by
  have hwhole : ((offset.natAbs / 3600 * 60 + offset.natAbs / 60 % 60 : Nat) : Int) * 60 =
      offset.natAbs := by
    obtain ⟨k, rfl⟩ := hminutes
    omega
  rw [zoneOf, Zone.seconds]
  dsimp only
  rw [hwhole]
  by_cases hneg : offset < 0
  · rw [if_pos (decide_eq_true hneg)]
    omega
  · rw [if_neg (by rw [decide_eq_false hneg]; decide)]
    omega

/-- What is printed of an instant is a timestamp of it. -/
theorem putDateTime_render {tm : Tm} (hyear : 1000 ≤ tm.year ∧ tm.year ≤ 9999)
    (hformed : tm.WellFormed) (hsec : tm.sec < 60) (zone : Zone) :
    ∃ t : Timestamp, t.render = putDateTime tm ++ zone.render ∧
      t.epochSeconds = tm.civilSeconds - zone.seconds := by
  obtain ⟨hvalid, hhour, hmin, -⟩ := hformed
  have hmon : tm.mon + 1 ≤ 12 := (Civil.month_of_monthLength_pos (hvalid.1.trans hvalid.2)).2
  have hmday : tm.mday ≤ 31 := hvalid.2.trans (Civil.monthLength_le _ _)
  have hdecimal : decimalInt tm.year = fixed 4 tm.year.toNat := by
    have hnat : tm.year.natAbs = tm.year.toNat := by omega
    have hlow : 10 ^ 3 ≤ tm.year.toNat := by omega
    have hhigh : tm.year.toNat < 10 ^ 4 := by omega
    rw [decimalInt, if_neg (by omega), hnat, decimal_eq_fixed hlow hhigh]
  refine ⟨⟨⟨tm.year, tm.mon + 1, tm.mday, hvalid⟩, ⟨le_trans (by decide) hyear.1, hyear.2⟩, 84,
    by decide, ⟨tm.hour, hhour⟩, ⟨tm.min, hmin⟩, ⟨tm.sec, hsec⟩, none, zone⟩, ?_, rfl⟩
  rw [Timestamp.render, putDateTime, putDate, hdecimal, padded_eq_fixed (by omega),
    padded_eq_fixed (by omega), padded_eq_fixed (by omega), padded_eq_fixed (by omega),
    padded_eq_fixed (by omega), fractionText]
  simp only [List.append_assoc, List.cons_append, List.nil_append]

/-- A text is accepted exactly where it is a timestamp without a leap second, and read as its Unix
seconds; every other one is refused with the one message. What is printed of an instant is read
back, where the clock on the wall shows no leap second and is less than a day away from Unix
time. -/
theorem rfc3339_exact (value : Bytes) (zone : LocalZone) (epochSeconds : Int) (tm : Tm) :
    (∀ result, parseRfc3339 value = .ok result ↔
      ∃ t : Timestamp, t.render = value ∧ result = ⟨t.epochSeconds, .timed⟩) ∧
    (∀ fault, parseRfc3339 value = .error fault ↔
      fault = .invalidArgument whenMessage ∧ ¬ ∃ t : Timestamp, t.render = value) ∧
    (zone.localTime epochSeconds = some tm → tm.WellFormed → 1000 ≤ tm.year ∧ tm.year ≤ 9999 →
      60 ∣ tm.offset epochSeconds → tm.sec ≠ 60 → (tm.offset epochSeconds).natAbs < 86400 →
      ∃ text, formatMilestoneWhen zone epochSeconds false = .ok text ∧
        parseMilestoneWhen zone text = .ok ⟨epochSeconds, .timed⟩) := by
  refine ⟨parseRfc3339_ok_iff value, parseRfc3339_error_iff value, ?_⟩
  intro htime hformed hyear hminutes hleap hoffset
  have hsec : tm.sec < 60 := Nat.lt_of_le_of_ne hformed.2.2.2 hleap
  obtain ⟨t, hrender, hseconds⟩ := putDateTime_render hyear hformed hsec (zoneOf _ hoffset)
  rw [zoneOf_render] at hrender
  rw [zoneOf_seconds hoffset hminutes, Tm.offset, Int.sub_sub_self] at hseconds
  refine ⟨t.render, ?_, ?_⟩
  · have hchecked : checkedYmd ⟨tm.year, tm.mon + 1, tm.mday⟩ =
        .ok ⟨tm.year, tm.mon + 1, tm.mday, hformed.1⟩ := dif_pos hformed.1
    rw [formatMilestoneWhen, LocalZone.time, htime, hrender]
    change (checkedYmd ⟨tm.year, tm.mon + 1, tm.mday⟩ >>= _) = _
    rw [hchecked]
    rfl
  · have hlength : t.render.length ≠ 10 := by
      rw [Timestamp.render]
      simp only [List.length_append, List.length_cons, length_fixed]
      omega
    rw [parseMilestoneWhen, dateShape, if_neg hlength]
    exact (parseRfc3339_ok_iff _ _).mpr ⟨t, rfl, by rw [hseconds]⟩

/-- A zone at the first second of 1970, where its clock shows this. -/
def zoneAtEpoch (tm : Tm) : LocalZone where
  localTime epochSeconds := if epochSeconds = 0 then some tm else none
  mktime _ := none

def halfPastFive : Tm := ⟨1970, 0, 1, 5, 30, 0⟩

theorem rfc3339_exact_epoch :
    ∃ text, formatMilestoneWhen (zoneAtEpoch halfPastFive) 0 false = .ok text ∧
      parseMilestoneWhen (zoneAtEpoch halfPastFive) text = .ok ⟨0, .timed⟩ :=
  (rfc3339_exact [] (zoneAtEpoch halfPastFive) 0 halfPastFive).2.2 rfl (by decide) (by decide)
    (by decide) (by decide) (by decide)

/-- A whole day ahead, as `TZ` may set it. -/
def nextDay : Tm := ⟨1970, 0, 2, 0, 0, 0⟩

theorem day_ahead_not_read_back :
    ¬ ∀ (zone : LocalZone) (epochSeconds : Int) (tm : Tm),
      zone.localTime epochSeconds = some tm → tm.WellFormed → 1000 ≤ tm.year ∧ tm.year ≤ 9999 →
      60 ∣ tm.offset epochSeconds →
      ∃ text, formatMilestoneWhen zone epochSeconds false = .ok text ∧
        parseMilestoneWhen zone text = .ok ⟨epochSeconds, .timed⟩ := by
  intro h
  obtain ⟨text, hformat, hparse⟩ := h (zoneAtEpoch nextDay) 0 nextDay rfl (by decide) (by decide)
    (by decide)
  have htext : formatMilestoneWhen (zoneAtEpoch nextDay) 0 false =
      .ok (ascii "1970-01-02T00:00:00+24:00") := by decide +kernel
  have hrefused : parseMilestoneWhen (zoneAtEpoch nextDay) (ascii "1970-01-02T00:00:00+24:00") =
      .error (.invalidArgument whenMessage) := by decide +kernel
  rw [← Except.ok.inj (htext.symm.trans hformat), hrefused] at hparse
  cases hparse

end MilestoneDateTime

end HolderDaemon
