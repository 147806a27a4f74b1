import Mathlib

/-!
The proleptic Gregorian calendar. The days are numbered from the first of January 1970, and the
numbering is the only one in which each date is one more than the date before it.
-/

set_option autoImplicit false

namespace Civil

def IsLeap (year : Int) : Prop := year % 4 = 0 ∧ (year % 100 ≠ 0 ∨ year % 400 = 0)

instance (year : Int) : Decidable (IsLeap year) := inferInstanceAs (Decidable (_ ∧ _))

/-- No month outside of 1 to 12 has a day. -/
def monthLength (year : Int) : Nat → Nat
  | 2 => if IsLeap year then 29 else 28
  | 4 | 6 | 9 | 11 => 30
  | 1 | 3 | 5 | 7 | 8 | 10 | 12 => 31
  | _ => 0

def Valid (year : Int) (month day : Nat) : Prop := 1 ≤ day ∧ day ≤ monthLength year month

instance (year : Int) (month day : Nat) : Decidable (Valid year month day) :=
  inferInstanceAs (Decidable (_ ∧ _))

structure Date where
  year : Int
  month : Nat
  day : Nat
  valid : Valid year month day

def daysBeforeYear (year : Int) : Int :=
  365 * year + (year + 3) / 4 - (year + 99) / 100 + (year + 399) / 400

def daysBeforeMonth (year : Int) : Nat → Int
  | 0 => 0
  | month + 1 => daysBeforeMonth year month + monthLength year month

def dayNumber (year : Int) (month day : Nat) : Int :=
  daysBeforeYear year + daysBeforeMonth year month + (day - 1) - 719528

def Date.number (d : Date) : Int := dayNumber d.year d.month d.day

def epoch : Date := ⟨1970, 1, 1, by decide⟩

theorem number_epoch : epoch.number = 0 := by decide

theorem monthLength_pos {year : Int} {month : Nat} (h : 1 ≤ month ∧ month ≤ 12) :
    0 < monthLength year month := by
  obtain ⟨hpos, hle⟩ := h
  interval_cases month
  case «2» =>
    rw [monthLength]
    split
    · decide
    · decide
  all_goals exact Nat.succ_pos _

theorem monthLength_le (year : Int) (month : Nat) : monthLength year month ≤ 31 := by
  unfold monthLength
  split
  · split
    · decide
    · decide
  all_goals decide

theorem month_of_monthLength_pos {year : Int} {month : Nat} (h : 0 < monthLength year month) :
    1 ≤ month ∧ month ≤ 12 := by
  unfold monthLength at h
  split at h
  case h_13 => exact absurd h (Nat.lt_irrefl 0)
  all_goals decide

theorem Date.month_range (d : Date) : 1 ≤ d.month ∧ d.month ≤ 12 :=
  month_of_monthLength_pos (d.valid.1.trans d.valid.2)

theorem valid_first {year : Int} {month : Nat} (h : 1 ≤ month ∧ month ≤ 12) : Valid year month 1 :=
  ⟨Nat.le_refl 1, monthLength_pos h⟩

theorem valid_later {year : Int} {month day : Nat} (h : day < monthLength year month) :
    Valid year month (day + 1) :=
  ⟨Nat.le_add_left 1 day, h⟩

/-- The date after this one. -/
def Date.next (d : Date) : Date :=
  if hday : d.day < monthLength d.year d.month then
    ⟨d.year, d.month, d.day + 1, valid_later hday⟩
  else if hmonth : d.month < 12 then
    ⟨d.year, d.month + 1, 1, valid_first ⟨Nat.le_add_left 1 d.month, hmonth⟩⟩
  else ⟨d.year + 1, 1, 1, valid_first ⟨Nat.le_refl 1, by decide⟩⟩

/-- The days of a whole year are those of its twelve months. -/
theorem daysBeforeYear_succ (year : Int) :
    daysBeforeYear (year + 1) = daysBeforeYear year + daysBeforeMonth year 13 := by
  simp only [daysBeforeYear, daysBeforeMonth, monthLength]
  split
  · rename_i hleap
    obtain ⟨hfour, hhundred⟩ := hleap
    omega
  · rename_i hleap
    rw [IsLeap, not_and_or] at hleap
    omega

theorem number_next (d : Date) : d.next.number = d.number + 1 := by
  have hrange := d.month_range
  obtain ⟨year, month, day, hvalid⟩ := d
  dsimp only at hrange
  unfold Date.next
  split
  · simp only [Date.number, dayNumber]
    omega
  · rename_i hday
    dsimp only at hday
    have hlast : day = monthLength year month := Nat.le_antisymm hvalid.2 (Nat.le_of_not_lt hday)
    split
    · simp only [Date.number, dayNumber, daysBeforeMonth]
      omega
    · rename_i hmonth
      dsimp only at hmonth
      obtain rfl : month = 12 := by omega
      have hend : monthLength year 12 = 31 := rfl
      have hwhole : daysBeforeMonth year 13 = daysBeforeMonth year 12 + 31 := rfl
      have hnone : daysBeforeMonth (year + 1) 1 = 0 := rfl
      simp only [Date.number, dayNumber, daysBeforeYear_succ, hwhole, hnone]
      omega

theorem next_in_month {year : Int} {month day : Nat} (h : Valid year month day)
    (hnext : Valid year month (day + 1)) :
    Date.next ⟨year, month, day, h⟩ = ⟨year, month, day + 1, hnext⟩ := dif_pos hnext.2

theorem next_month {year : Int} {month : Nat} (h : Valid year month (monthLength year month))
    (hmonth : month < 12) :
    Date.next ⟨year, month, monthLength year month, h⟩ =
      ⟨year, month + 1, 1, valid_first ⟨Nat.le_add_left 1 month, hmonth⟩⟩ :=
  (dif_neg (Nat.lt_irrefl _)).trans (dif_pos hmonth)

theorem next_year {year : Int} (h : Valid year 12 31) :
    Date.next ⟨year, 12, 31, h⟩ = ⟨year + 1, 1, 1, valid_first (by decide)⟩ :=
  (dif_neg (Nat.lt_irrefl 31)).trans (dif_neg (Nat.lt_irrefl 12))

section Counting
variable {f : Date → Int} (hnext : ∀ d : Date, f d.next = f d)
include hnext

theorem same_in_month {year : Int} {month day : Nat} (h : Valid year month day)
    (hfirst : Valid year month 1) : f ⟨year, month, day, h⟩ = f ⟨year, month, 1, hfirst⟩ := by
  induction day with
  | zero => exact absurd h.1 (by decide)
  | succ day ih =>
    rcases Nat.eq_zero_or_pos day with rfl | hday
    · rfl
    · have hbefore : Valid year month day := ⟨hday, Nat.le_of_succ_le h.2⟩
      rw [← ih hbefore, ← hnext ⟨year, month, day, hbefore⟩, next_in_month hbefore h]

theorem same_in_year {year : Int} {month : Nat} (h : 1 ≤ month ∧ month ≤ 12) :
    f ⟨year, month, 1, valid_first h⟩ = f ⟨year, 1, 1, valid_first (by decide)⟩ := by
  obtain ⟨hpos, hle⟩ := h
  induction month, hpos using Nat.le_induction with
  | base => rfl
  | succ month hmonth ih =>
    have hlast : Valid year month (monthLength year month) :=
      ⟨monthLength_pos ⟨hmonth, Nat.le_of_succ_le hle⟩, Nat.le_refl _⟩
    have hfirst : Valid year month 1 := valid_first ⟨hmonth, Nat.le_of_succ_le hle⟩
    rw [← ih (Nat.le_of_succ_le hle), ← same_in_month hnext hlast hfirst, ← hnext ⟨_, _, _, hlast⟩,
      next_month hlast hle]

theorem same_next_year (year : Int) :
    f ⟨year + 1, 1, 1, valid_first (by decide)⟩ = f ⟨year, 1, 1, valid_first (by decide)⟩ := by
  have hlast : Valid year 12 31 := ⟨by decide, Nat.le_refl 31⟩
  rw [← next_year hlast, hnext, same_in_month hnext hlast (valid_first (by decide)),
    same_in_year hnext (by decide)]

/-- From one date every other one is reached, day by day. -/
theorem same_everywhere (d : Date) : f d = f epoch := by
  have hyears : ∀ n : Nat, ∀ year : Int, f ⟨year + n, 1, 1, valid_first (by decide)⟩ =
      f ⟨year, 1, 1, valid_first (by decide)⟩ := by
    intro n year
    induction n with
    | zero => simp
    | succ n ih =>
      rw [← ih, ← same_next_year hnext (year + n)]
      congr 2
      omega
  have hyear : f ⟨d.year, 1, 1, valid_first (by decide)⟩ = f epoch := by
    rcases Int.le_total d.year 1970 with hle | hge
    · obtain ⟨n, hn⟩ := Int.eq_ofNat_of_zero_le (Int.sub_nonneg_of_le hle)
      rw [← hyears n d.year]
      congr 2
      omega
    · obtain ⟨n, hn⟩ := Int.eq_ofNat_of_zero_le (Int.sub_nonneg_of_le hge)
      rw [epoch, ← hyears n 1970]
      congr 2
      omega
  rw [← hyear, ← same_in_year hnext d.month_range,
    ← same_in_month hnext d.valid (valid_first d.month_range)]

end Counting

/-- No other numbering starts at the first of January 1970 and counts the days. -/
theorem number_unique {f : Date → Int} (hepoch : f epoch = 0)
    (hnext : ∀ d : Date, f d.next = f d + 1) (d : Date) : f d = d.number := by
  have hsame := same_everywhere (f := fun d => f d - d.number) (fun d => by
    rw [hnext, number_next]
    omega) d
  rw [hepoch, number_epoch] at hsame
  omega

end Civil
