import HolderDaemon.MilestoneDateTime
import HolderDaemon.QueryValues

/-!
Calendar queries: `resolve_calendar_range` (`cli/commands/MilestoneDateTime.cpp`) makes a range of
seconds of the days that are asked for, `holderctl calendar` (`cli/commands/milestones.cpp`) sends
it, and `GET /calendar` (`api/routes/MilestoneRoutes.cpp`) answers what falls into it.
-/

set_option autoImplicit false

open Bytes
open Json (of_bind_ok)

namespace HolderDaemon

namespace Calendar

open MilestoneDateTime QueryValues GoogleDriveOAuth Runners

/-! The command line -/

def localDate (zone : LocalZone) (epochSeconds : Int) : Except Fault CivilDate := do
  let tm ← zone.time epochSeconds
  .ok ⟨tm.year, tm.mon + 1, tm.mday⟩

def nextDate (date : CivilDate) : Except Fault CivilDate := do
  let ymd ← checkedYmd date
  .ok ⟨ymd.next.year, ymd.next.month, ymd.next.day⟩

def localDayEnd (zone : LocalZone) (date : CivilDate) : Except Fault Int := do
  let next ← nextDate date
  let nextMidnight ← zone.midnight next
  if nextMidnight = -2 ^ 63 then invalid "local calendar date is outside the platform time range"
  else .ok (nextMidnight - 1)

def parseCalendarBound (zone : LocalZone) (value : Bytes) (endBound : Bool) :
    Except Fault Int := do
  if ← dateShape value then
    let date ← parseDate value
    if endBound then localDayEnd zone date else zone.midnight date
  else
    let result ← parseRfc3339 value
    .ok result.epochSeconds

structure CalendarRange where
  fromSeconds : Int
  toSeconds : Int
  deriving DecidableEq

def bounds (zone : LocalZone) (lower upper : Option Bytes) (nowEpochSeconds : Int) :
    Except Fault CalendarRange :=
  match lower, upper with
  | none, none => do
    let today ← localDate zone nowEpochSeconds
    let fromSeconds ← zone.midnight today
    let toSeconds ← localDayEnd zone today
    .ok ⟨fromSeconds, toSeconds⟩
  | some lower, none => do
    let fromSeconds ← parseCalendarBound zone lower false
    let date ← localDate zone fromSeconds
    let toSeconds ← localDayEnd zone date
    .ok ⟨fromSeconds, toSeconds⟩
  | none, some upper => do
    let toSeconds ← parseCalendarBound zone upper true
    let date ← localDate zone toSeconds
    let fromSeconds ← zone.midnight date
    .ok ⟨fromSeconds, toSeconds⟩
  | some lower, some upper => do
    let fromSeconds ← parseCalendarBound zone lower false
    let toSeconds ← parseCalendarBound zone upper true
    .ok ⟨fromSeconds, toSeconds⟩

def resolveCalendarRange (zone : LocalZone) (lower upper : Option Bytes)
    (nowEpochSeconds : Int) : Except Fault CalendarRange := do
  let result ← bounds zone lower upper nowEpochSeconds
  if result.fromSeconds > result.toSeconds then
    invalid "calendar --from must not be after --to."
  else .ok result

/-- The query of `command_calendar`. -/
def calendarQuery (projectId : Bytes) (range : CalendarRange) : Bytes :=
  queryString [(ascii "project_id", urlEncodeComponent projectId),
    (ascii "from", decimalInt range.fromSeconds), (ascii "to", decimalInt range.toSeconds)]

def commandCalendar (zone : LocalZone) (projectId : Bytes) (lower upper : Option Bytes)
    (nowEpochSeconds : Int) : Except Fault Bytes := do
  let range ← resolveCalendarRange zone lower upper nowEpochSeconds
  .ok (calendarQuery projectId range)

/-! The daemon -/

/-- `std::stoll`, and how many letters it has consumed. -/
def stoll (s : Bytes) : Option (Int × Nat) :=
  let t := s.dropWhile isSpace
  let negative := t.head? = some 45
  let unsigned := if negative ∨ t.head? = some 43 then t.drop 1 else t
  let digits := unsigned.takeWhile isDigit
  let value : Int := if negative then -decimalValue digits else decimalValue digits
  if digits = [] ∨ ¬ (-2 ^ 63 ≤ value ∧ value < 2 ^ 63) then none
  else some (value, s.length - (unsigned.length - digits.length))

def parseRequiredEpoch (raw name : Bytes) : Except Bytes Int :=
  if raw = [] then .error (ascii "Missing " ++ name ++ ascii ".")
  else
    match stoll raw with
    | some (value, consumed) =>
      if consumed = raw.length then .ok value
      else .error (name ++ ascii " must be an epoch-second integer.")
    | none => .error (name ++ ascii " must be an epoch-second integer.")

structure Card where
  cardId : Bytes
  title : Bytes
  createdAt : Int
  updatedAt : Int
  deletedAt : Option Int
  deriving DecidableEq

structure Milestone where
  milestoneId : Bytes
  cardId : Bytes
  startAt : Int
  endAt : Option Int
  allDay : Bool
  kind : Option Bytes
  description : Option Bytes
  createdAt : Int
  updatedAt : Int
  deriving DecidableEq

/-- `ProjectRepo::get`, `CardRepo::list_all` and `MilestoneRepo::list_in_range`. -/
structure Repos where
  project : Bytes → Bool
  listAll : Bytes → List Card
  listInRange : Bytes → Int → Int → List Milestone

structure CalendarData where
  projectId : Bytes
  range : CalendarRange
  milestones : List (Milestone × Bytes)
  createdCards : List Card
  updatedCards : List Card

inductive Response where
  | badRequest (message : Bytes)
  | notFound (message : Bytes)
  | ok (data : CalendarData)

/-- `active_titles`, whose `emplace` keeps the first. -/
def activeTitle (cards : List Card) (cardId : Bytes) : Option Bytes :=
  ((cards.filter (·.deletedAt.isNone)).find? (·.cardId = cardId)).map (·.title)

def collect (repos : Repos) (projectId : Bytes) (range : CalendarRange) : CalendarData :=
  let cards := repos.listAll projectId
  let active := cards.filter (·.deletedAt.isNone)
  { projectId, range
    milestones :=
      (repos.listInRange projectId range.fromSeconds range.toSeconds).filterMap fun m =>
        (activeTitle cards m.cardId).map fun title => (m, title)
    createdCards := active.filter fun c =>
      range.fromSeconds ≤ c.createdAt ∧ c.createdAt ≤ range.toSeconds
    updatedCards := active.filter fun c =>
      c.updatedAt ≠ c.createdAt ∧ range.fromSeconds ≤ c.updatedAt ∧
        c.updatedAt ≤ range.toSeconds }

/-- `GET /calendar`. -/
def handleCalendar (repos : Repos) (query : Bytes) : Response :=
  let projectId := queryParamValue query (ascii "project_id")
  if projectId = [] then .badRequest (ascii "Missing project_id.")
  else
    match parseRequiredEpoch (queryParamValue query (ascii "from")) (ascii "from") with
    | .error message => .badRequest message
    | .ok fromSeconds =>
      match parseRequiredEpoch (queryParamValue query (ascii "to")) (ascii "to") with
      | .error message => .badRequest message
      | .ok toSeconds =>
        if fromSeconds > toSeconds then .badRequest (ascii "from must not be after to.")
        else if repos.project projectId = false then .notFound (ascii "Project not found.")
        else .ok (collect repos projectId ⟨fromSeconds, toSeconds⟩)

/-! The days of a zone -/

/-- A zone whose clock never goes back over a midnight and leaves out no day, and the numbers of
its days. -/
structure Days (zone : LocalZone) (day : Int → Int) : Prop where
  shown : ∀ t tm, zone.localTime t = some tm → Civil.Valid tm.year (tm.mon + 1) tm.mday ∧
    Civil.dayNumber tm.year (tm.mon + 1) tm.mday = day t
  forward : Monotone day
  steady : ∀ t, day (t + 1) ≤ day t + 1
  midnight : ∀ t tm, zone.localTime t = some tm → tm.hour = 0 ∧ tm.min = 0 ∧ tm.sec = 0 →
    day (t - 1) < day t
  fits : ∀ tm t, zone.mktime tm = some t → -2 ^ 63 ≤ t ∧ t < 2 ^ 63

/-- A bound as it is meant: a day or a second. -/
inductive Bound where
  | date (d : Civil.Date)
  | instant (t : Timestamp)

def Bound.render : Bound → Bytes
  | .date d => fixed 4 d.year.toNat ++ 45 :: (fixed 2 d.month ++ 45 :: fixed 2 d.day)
  | .instant t => t.render

section Asked
variable (day : Int → Int)

/-- The day of a bound. -/
def Bound.onDay : Bound → Int
  | .date d => d.number
  | .instant t => day t.epochSeconds

def Bound.reached : Bound → Int → Prop
  | .date d, t => d.number ≤ day t
  | .instant s, t => s.epochSeconds ≤ t

def Bound.kept : Bound → Int → Prop
  | .date d, t => day t ≤ d.number
  | .instant s, t => t ≤ s.epochSeconds

/-- What is asked for: where a bound is missing, the day of the other one or today. -/
def Asked (lower upper : Option Bound) (now t : Int) : Prop :=
  match lower, upper with
  | none, none => day t = day now
  | some lower, none => lower.reached day t ∧ day t ≤ lower.onDay day
  | none, some upper => upper.onDay day ≤ day t ∧ upper.kept day t
  | some lower, some upper => lower.reached day t ∧ upper.kept day t

end Asked

/-! Midnights -/

section Midnights
variable {zone : LocalZone} {day : Int → Int}

theorem time_ok {t : Int} {tm : Tm} (h : zone.time t = .ok tm) : zone.localTime t = some tm := by
  rw [LocalZone.time] at h
  split at h
  case h_1 tm' htm =>
    cases h
    exact htm
  case h_2 => cases h

theorem localDate_ok (hzone : Days zone day) {t : Int} {date : CivilDate}
    (h : localDate zone t = .ok date) :
    ∃ d : Civil.Date, date = ⟨d.year, d.month, d.day⟩ ∧ d.number = day t := by
  obtain ⟨tm, htm, h⟩ := of_bind_ok h
  cases h
  obtain ⟨hvalid, hday⟩ := hzone.shown t tm (time_ok htm)
  exact ⟨⟨tm.year, tm.mon + 1, tm.mday, hvalid⟩, rfl, hday⟩

theorem midnight_ok (hzone : Days zone day) {d : Civil.Date} {m : Int}
    (h : zone.midnight ⟨d.year, d.month, d.day⟩ = .ok m) :
    day m = d.number ∧ day (m - 1) < day m ∧ -2 ^ 63 ≤ m ∧ m < 2 ^ 63 := by
  rw [LocalZone.midnight] at h
  split at h
  case h_1 => cases h
  case h_2 epoch hmktime =>
    obtain ⟨tm, htm, h⟩ := of_bind_ok h
    split at h
    case isTrue => cases h
    case isFalse hsame =>
      cases h
      simp only [not_or, not_not] at hsame
      obtain ⟨hyear, hmon, hmday, hclock⟩ := hsame
      have htime := time_ok htm
      have hday := (hzone.shown m tm htime).2
      have hmonth : tm.mon + 1 = d.month := by
        have hpos := d.month_range.1
        omega
      refine ⟨?_, hzone.midnight m tm htime hclock, hzone.fits _ m hmktime⟩
      rw [← hday, hyear, hmonth, hmday]
      rfl

/-- A midnight parts the days before from those from then on. -/
theorem midnight_le_iff (hzone : Days zone day) {d : Civil.Date} {m : Int}
    (h : zone.midnight ⟨d.year, d.month, d.day⟩ = .ok m) (t : Int) : m ≤ t ↔ d.number ≤ day t := by
  obtain ⟨hday, hbefore, -, -⟩ := midnight_ok hzone h
  constructor
  · intro hle
    rw [← hday]
    exact hzone.forward hle
  · intro hle
    by_contra hlt
    have hbound : day t ≤ day (m - 1) := hzone.forward (by omega)
    omega

theorem dayEnd_ok (hzone : Days zone day) {d : Civil.Date} {e : Int}
    (h : localDayEnd zone ⟨d.year, d.month, d.day⟩ = .ok e) :
    (∀ t, t ≤ e ↔ day t ≤ d.number) ∧ day e = d.number ∧ -2 ^ 63 ≤ e ∧ e < 2 ^ 63 := by
  obtain ⟨next, hnext, h⟩ := of_bind_ok h
  obtain ⟨ymd, hymd, hnext⟩ := of_bind_ok hnext
  rw [checkedYmd_of] at hymd
  cases hymd
  cases hnext
  obtain ⟨m, hm, h⟩ := of_bind_ok h
  obtain ⟨hday, hbefore, hlow, hhigh⟩ := midnight_ok hzone hm
  have hstep := hzone.steady (m - 1)
  rw [Int.sub_add_cancel] at hstep
  have hnumber := Civil.number_next d
  split at h
  case isTrue => cases h
  case isFalse hmin =>
    cases h
    refine ⟨fun t => ?_, by omega, by omega, by omega⟩
    have hiff := midnight_le_iff hzone hm t
    omega

end Midnights

/-! Bounds -/

theorem daysBeforeMonth_le (year : Int) (month : Nat) :
    0 ≤ Civil.daysBeforeMonth year month ∧ Civil.daysBeforeMonth year month ≤ 31 * month := by
  induction month with
  | zero => exact ⟨Int.le_refl 0, Int.le_refl 0⟩
  | succ month ih =>
    have hle := Civil.monthLength_le year month
    rw [Civil.daysBeforeMonth]
    push_cast
    omega

theorem timestamp_fits (t : Timestamp) :
    -2 ^ 63 ≤ t.epochSeconds ∧ t.epochSeconds < 2 ^ 63 := by
  have hmonth := daysBeforeMonth_le t.date.year t.date.month
  have hrange := t.date.month_range
  have hlength := t.date.valid.2.trans (Civil.monthLength_le _ _)
  have hyear := t.year_range
  have hhour := t.hour.isLt
  have hminute := t.minute.isLt
  have hsecond := t.second.isLt
  have hzone : -86400 ≤ t.zone.seconds ∧ t.zone.seconds ≤ 86400 := by
    cases t.zone with
    | utc letter hletter =>
      simp only [Zone.seconds]
      omega
    | offset negative hour minute =>
      have hh := hour.isLt
      have hm := minute.isLt
      simp only [Zone.seconds]
      push_cast
      split <;> omega
  have hdays : -1000000 ≤ t.date.number ∧ t.date.number ≤ 4000000 := by
    rw [Civil.Date.number, Civil.dayNumber, Civil.daysBeforeYear]
    omega
  rw [Timestamp.epochSeconds]
  push_cast
  omega

theorem drop_of_head {value : Bytes} {p : Nat} {b : UInt8} (h : (value.drop p).head? = some b) :
    value.drop p = b :: value.drop (p + 1) := by
  cases hdrop : value.drop p with
  | nil =>
    rw [hdrop] at h
    cases h
  | cons c rest =>
    rw [hdrop] at h
    rw [← List.tail_drop, hdrop, Option.some.inj h]
    rfl

theorem dash_of {value : Bytes} {p : Nat}
    (h : ((value.drop p).head?.any fun b => decide (b ∈ ascii "-")) = true) :
    value.drop p = 45 :: value.drop (p + 1) := by
  obtain ⟨b, hb, hmem⟩ := (Option.any_eq_true _ _).mp h
  have hletter : b = 45 := by
    have hdash : ascii "-" = [45] := rfl
    rw [hdash] at hmem
    exact List.mem_singleton.mp (of_decide_eq_true hmem)
  rw [hletter] at hb
  exact drop_of_head hb

theorem dateShape_ok {value : Bytes} (h : dateShape value = .ok true) :
    value.length = 10 ∧ value.drop 4 = 45 :: value.drop 5 ∧ value.drop 7 = 45 :: value.drop 8 := by
  rw [dateShape] at h
  split at h
  case isFalse => cases h
  case isTrue hlength =>
    rw [standsAt_eq, standsAt_eq] at h
    obtain ⟨first, hfirst, h⟩ := of_bind_ok h
    cases hfirst
    split at h
    case isFalse => cases h
    case isTrue hdash => exact ⟨hlength, dash_of hdash, dash_of (Except.ok.inj h)⟩

theorem parseDate_ok {value : Bytes} {date : CivilDate} (hshape : dateShape value = .ok true)
    (h : parseDate value = .ok date) :
    ∃ d : Civil.Date, date = ⟨d.year, d.month, d.day⟩ ∧ (Bound.date d).render = value := by
  obtain ⟨hlength, hdash, hdash'⟩ := dateShape_ok hshape
  obtain ⟨year, hyear, h⟩ := of_bind_ok h
  obtain ⟨month, hmonth, h⟩ := of_bind_ok h
  obtain ⟨mday, hday, h⟩ := of_bind_ok h
  obtain ⟨ymd, hymd, h⟩ := of_bind_ok h
  cases h
  obtain ⟨hymd_year, hymd_month, hymd_day⟩ := checkedYmd_ok hymd
  replace hymd_year : ymd.year = year := hymd_year
  replace hymd_month : ymd.month = month := hymd_month
  replace hymd_day : ymd.day = mday := hymd_day
  have hwhole : value = value.drop 0 := rfl
  have hend : value.drop 10 = [] := List.drop_eq_nil_of_le (by omega)
  refine ⟨ymd, by rw [hymd_year, hymd_month, hymd_day], ?_⟩
  rw [Bound.render, hymd_year, Int.toNat_natCast, hymd_month, hymd_day, hwhole,
    (digits_ok hyear).2, hdash, (digits_ok hmonth).2, hdash', (digits_ok hday).2, hend,
    List.append_nil]

section Ranges
variable {zone : LocalZone} {day : Int → Int}

/-- A bound is read as it is meant. -/
theorem parseCalendarBound_ok (hzone : Days zone day) {value : Bytes} {endBound : Bool} {s : Int}
    (h : parseCalendarBound zone value endBound = .ok s) :
    ∃ b : Bound, b.render = value ∧ (-2 ^ 63 ≤ s ∧ s < 2 ^ 63) ∧ day s = b.onDay day ∧
      ∀ t, if endBound then t ≤ s ↔ b.kept day t else s ≤ t ↔ b.reached day t := by
  obtain ⟨shape, hshape, h⟩ := of_bind_ok h
  cases shape with
  | false =>
    obtain ⟨result, hresult, h⟩ := of_bind_ok h
    cases h
    obtain ⟨t, hrender, rfl⟩ := (parseRfc3339_ok_iff value result).mp hresult
    refine ⟨.instant t, hrender, timestamp_fits t, rfl, fun u => ?_⟩
    cases endBound <;> exact Iff.rfl
  | true =>
    obtain ⟨date, hdate, h⟩ := of_bind_ok h
    obtain ⟨d, rfl, hrender⟩ := parseDate_ok hshape hdate
    cases endBound with
    | false =>
      obtain ⟨hday, -, hfits⟩ := midnight_ok hzone h
      exact ⟨.date d, hrender, hfits, hday, midnight_le_iff hzone h⟩
    | true =>
      obtain ⟨hkept, hday, hfits⟩ := dayEnd_ok hzone h
      exact ⟨.date d, hrender, hfits, hday, hkept⟩

def CalendarRange.Fits (range : CalendarRange) : Prop :=
  (-2 ^ 63 ≤ range.fromSeconds ∧ range.fromSeconds < 2 ^ 63) ∧
    (-2 ^ 63 ≤ range.toSeconds ∧ range.toSeconds < 2 ^ 63)

/-- The range holds the seconds that are asked for. -/
theorem bounds_ok (hzone : Days zone day) {lower upper : Option Bytes} {now : Int}
    {range : CalendarRange} (h : bounds zone lower upper now = .ok range) :
    ∃ l u : Option Bound, l.map Bound.render = lower ∧ u.map Bound.render = upper ∧ range.Fits ∧
      ∀ t, range.fromSeconds ≤ t ∧ t ≤ range.toSeconds ↔ Asked day l u now t := by
  match lower, upper with
  | none, none =>
    obtain ⟨today, htoday, h⟩ := of_bind_ok h
    obtain ⟨m, hm, h⟩ := of_bind_ok h
    obtain ⟨e, he, h⟩ := of_bind_ok h
    cases h
    obtain ⟨d, rfl, hd⟩ := localDate_ok hzone htoday
    obtain ⟨-, -, hfits⟩ := midnight_ok hzone hm
    obtain ⟨hkept, -, hfits'⟩ := dayEnd_ok hzone he
    refine ⟨none, none, rfl, rfl, ⟨hfits, hfits'⟩, fun t => ?_⟩
    have hreached := midnight_le_iff hzone hm t
    have hkept := hkept t
    simp only [Asked]
    omega
  | some lower, none =>
    obtain ⟨m, hm, h⟩ := of_bind_ok h
    obtain ⟨date, hdate, h⟩ := of_bind_ok h
    obtain ⟨e, he, h⟩ := of_bind_ok h
    cases h
    obtain ⟨b, rfl, hfits, hday, hreached⟩ := parseCalendarBound_ok hzone hm
    obtain ⟨d, rfl, hd⟩ := localDate_ok hzone hdate
    obtain ⟨hkept, -, hfits'⟩ := dayEnd_ok hzone he
    refine ⟨some b, none, rfl, rfl, ⟨hfits, hfits'⟩, fun t => ?_⟩
    exact and_congr (hreached t) (by rw [← hday, ← hd]; exact hkept t)
  | none, some upper =>
    obtain ⟨e, he, h⟩ := of_bind_ok h
    obtain ⟨date, hdate, h⟩ := of_bind_ok h
    obtain ⟨m, hm, h⟩ := of_bind_ok h
    cases h
    obtain ⟨b, rfl, hfits, hday, hkept⟩ := parseCalendarBound_ok hzone he
    obtain ⟨d, rfl, hd⟩ := localDate_ok hzone hdate
    obtain ⟨-, -, hfits'⟩ := midnight_ok hzone hm
    refine ⟨none, some b, rfl, rfl, ⟨hfits', hfits⟩, fun t => ?_⟩
    exact and_congr (by rw [← hday, ← hd]; exact midnight_le_iff hzone hm t) (hkept t)
  | some lower, some upper =>
    obtain ⟨m, hm, h⟩ := of_bind_ok h
    obtain ⟨e, he, h⟩ := of_bind_ok h
    cases h
    obtain ⟨b, rfl, hfits, -, hreached⟩ := parseCalendarBound_ok hzone hm
    obtain ⟨c, rfl, hfits', -, hkept⟩ := parseCalendarBound_ok hzone he
    exact ⟨some b, some c, rfl, rfl, ⟨hfits, hfits'⟩, fun t => and_congr (hreached t) (hkept t)⟩

end Ranges

/-! On the way -/

theorem isDigit_decimalHead (n : Nat) :
    ∃ b rest, decimal n = b :: rest ∧ isDigit b = true := by
  obtain ⟨b, rest, hdecimal⟩ := List.exists_cons_of_ne_nil (decimal_ne_nil n)
  exact ⟨b, rest, hdecimal,
    List.all_eq_true.mp (all_isDigit_decimal n) b (hdecimal ▸ List.mem_cons_self)⟩

theorem takeWhile_decimal (n : Nat) : (decimal n).takeWhile isDigit = decimal n :=
  List.takeWhile_eq_self_iff.mpr (List.all_eq_true.mp (all_isDigit_decimal n))

theorem stoll_decimalInt {i : Int} (h : -2 ^ 63 ≤ i ∧ i < 2 ^ 63) :
    stoll (decimalInt i) = some (i, (decimalInt i).length) := by
  rw [decimalInt]
  split
  case isTrue hneg =>
    have hspace : (45 :: decimal i.natAbs).dropWhile isSpace = 45 :: decimal i.natAbs :=
      List.dropWhile_cons_of_neg (by decide)
    have hvalue : -(i.natAbs : Int) = i := by omega
    rw [stoll]
    simp only [hspace, List.head?_cons, true_or, if_true, List.drop_succ_cons, List.drop_zero,
      takeWhile_decimal, decimalValue_decimal, decimal_ne_nil, hvalue, h, false_or, and_self,
      not_true_eq_false, if_false, Nat.sub_self, Nat.sub_zero]
  case isFalse hpos =>
    obtain ⟨b, rest, hdecimal, hdigit⟩ := isDigit_decimalHead i.natAbs
    have hspace : (decimal i.natAbs).dropWhile isSpace = decimal i.natAbs := by
      rw [hdecimal, List.dropWhile_cons_of_neg]
      intro hsp
      simp only [isSpace, isDigit, Bool.or_eq_true, decide_eq_true_eq,
        Bool.and_eq_true] at hsp hdigit
      rcases hsp with rfl | hsp
      · exact absurd hdigit.1 (by decide)
      · omega
    have hsign : ∀ c : UInt8, isDigit c = false → (decimal i.natAbs).head? ≠ some c := by
      intro c hc hhead
      rw [hdecimal] at hhead
      rw [Option.some.inj hhead] at hdigit
      exact absurd hdigit (by simp [hc])
    have hvalue : (i.natAbs : Int) = i := by omega
    rw [stoll]
    simp only [hspace, hsign 45 (by decide), hsign 43 (by decide), or_self, if_false,
      takeWhile_decimal, decimalValue_decimal, decimal_ne_nil, hvalue, h, and_self,
      not_true_eq_false, Nat.sub_self, Nat.sub_zero]

theorem decimalInt_ne_nil (i : Int) : decimalInt i ≠ [] := by
  rw [decimalInt]
  split
  · exact List.cons_ne_nil _ _
  · exact decimal_ne_nil _

theorem parseRequiredEpoch_decimalInt {i : Int} (h : -2 ^ 63 ≤ i ∧ i < 2 ^ 63) (name : Bytes) :
    parseRequiredEpoch (decimalInt i) name = .ok i := by
  rw [parseRequiredEpoch, if_neg (decimalInt_ne_nil i), stoll_decimalInt h]
  exact if_pos rfl

theorem plain_decimalInt (i : Int) : Plain (decimalInt i) := by
  have hplain := plain_decimal i.natAbs
  rw [decimalInt]
  split
  · exact ⟨by simp [hplain.1], by simp [hplain.2]⟩
  · exact hplain

theorem plain_projectId : Plain (ascii "project_id") := by decide

theorem plain_from : Plain (ascii "from") := by decide

theorem from_not_suffix : ¬ ascii "from" <:+ ascii "project_id" := by decide

theorem to_not_suffix :
    ¬ ascii "to" <:+ ascii "project_id" ∧ ¬ ascii "to" <:+ ascii "from" := by decide

section Query
variable (projectId : Bytes) (range : CalendarRange)

theorem query_projectId :
    queryParamValue (calendarQuery projectId range) (ascii "project_id") =
      urlEncodeComponent projectId :=
  queryParamValue_queryString [] _ (by decide) (by decide) (fun _ hp => by cases hp)
    (plain_urlEncodeComponent projectId).2

theorem query_from :
    queryParamValue (calendarQuery projectId range) (ascii "from") =
      decimalInt range.fromSeconds := by
  refine queryParamValue_queryString [(ascii "project_id", urlEncodeComponent projectId)] _
    (by decide) (by decide) (fun p hp => ?_) (plain_decimalInt _).2
  rw [List.mem_singleton.mp hp]
  exact ⟨from_not_suffix, plain_projectId, plain_urlEncodeComponent projectId⟩

theorem query_to :
    queryParamValue (calendarQuery projectId range) (ascii "to") =
      decimalInt range.toSeconds := by
  refine queryParamValue_queryString [(ascii "project_id", urlEncodeComponent projectId),
    (ascii "from", decimalInt range.fromSeconds)] [] (by decide) (by decide) (fun p hp => ?_)
    (plain_decimalInt _).2
  simp only [List.mem_cons, List.not_mem_nil, or_false] at hp
  rcases hp with rfl | rfl
  · exact ⟨to_not_suffix.1, plain_projectId, plain_urlEncodeComponent projectId⟩
  · exact ⟨to_not_suffix.2, plain_from, plain_decimalInt _⟩

end Query

/-- The daemon is asked for the range that the command made. -/
theorem handleCalendar_query {repos : Repos} {projectId : Bytes} {range : CalendarRange}
    (hid : projectId ≠ [] ∧ projectId.all isSafe = true) (hfits : range.Fits)
    (hrange : range.fromSeconds ≤ range.toSeconds) (hproject : repos.project projectId = true) :
    handleCalendar repos (calendarQuery projectId range) = .ok (collect repos projectId range) := by
  simp only [handleCalendar, query_projectId, query_from, query_to,
    urlEncodeComponent_eq_iff.mpr hid.2, if_neg hid.1, parseRequiredEpoch_decimalInt hfits.1,
    parseRequiredEpoch_decimalInt hfits.2, if_neg (Int.not_lt.mpr hrange), hproject]
  rfl

/-- An answer that is about the seconds that are asked for, and all of them. -/
structure Answered (day : Int → Int) (repos : Repos) (projectId : Bytes)
    (lower upper : Option Bound) (now : Int) (data : CalendarData) : Prop where
  range : ∀ t, data.range.fromSeconds ≤ t ∧ t ≤ data.range.toSeconds ↔
    Asked day lower upper now t
  created : ∀ c, c ∈ data.createdCards ↔ c ∈ repos.listAll projectId ∧ c.deletedAt = none ∧
    Asked day lower upper now c.createdAt
  updated : ∀ c, c ∈ data.updatedCards ↔ c ∈ repos.listAll projectId ∧ c.deletedAt = none ∧
    c.updatedAt ≠ c.createdAt ∧ Asked day lower upper now c.updatedAt
  milestones : ∀ m title, (m, title) ∈ data.milestones ↔
    m ∈ repos.listInRange projectId data.range.fromSeconds data.range.toSeconds ∧
      activeTitle (repos.listAll projectId) m.cardId = some title

/-- Universal time, of its first two midnights. -/
def utc : LocalZone where
  localTime t :=
    if t = 0 then some ⟨1970, 0, 1, 0, 0, 0⟩
    else if t = 86400 then some ⟨1970, 0, 2, 0, 0, 0⟩
    else none
  mktime tm :=
    if tm.year = 1970 ∧ tm.mon = 0 ∧ (tm.mday = 1 ∨ tm.mday = 2) then
      some ((tm.mday - 1 : Nat) * 86400)
    else none

theorem days_utc : Days utc fun t => t / 86400 where
  shown t tm h := by
    simp only [utc] at h
    split at h
    case isTrue hzero =>
      cases h
      subst hzero
      exact ⟨by decide, by decide⟩
    case isFalse =>
      split at h
      case isTrue hday =>
        cases h
        subst hday
        exact ⟨by decide, by decide⟩
      case isFalse => cases h
  forward := fun _ _ hle => Int.ediv_le_ediv (by decide) hle
  steady t := by omega
  midnight t tm h _ := by
    simp only [utc] at h
    split at h
    case isTrue hzero =>
      subst hzero
      decide
    case isFalse =>
      split at h
      case isTrue hday =>
        subst hday
        decide
      case isFalse => cases h
  fits tm t h := by
    simp only [utc] at h
    split at h
    case isTrue hday =>
      cases h
      omega
    case isFalse => cases h

def notes : Repos where
  project _ := true
  listAll _ := [⟨ascii "c", ascii "Note", 86399, 86400, none⟩]
  listInRange _ _ _ := []

end Calendar

end HolderDaemon
