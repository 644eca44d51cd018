import Mathlib.Tactic.Ring
import Remnic.Text.CodeUnits

/-!
Time values in milliseconds and their ISO text. Days are counted from the first
of March of the year zero, so that a leap day is the last day of its year.
-/

namespace Remnic.Text.IsoDate

open CodeUnits List

/-- The largest time value a `Date` holds; the least is its negation. -/
def maxTime : Int := 8640000000000000

/-- Days from the first of March of the year zero to the first of January 1970. -/
def epochDay : Int := 719468

/-- A day as the years, counted by their cycles, and the days since March. -/
structure YearDay where
  cycles : Int
  centuries : Int
  leaps : Int
  years : Int
  days : Int
  deriving DecidableEq, Repr

def yearDay (day : Int) : YearDay :=
  let inCycle := day % 146097
  let centuries := min (inCycle / 36524) 3
  let inCentury := inCycle - 36524 * centuries
  let inLeap := inCentury % 1461
  let years := min (inLeap / 365) 3
  ⟨day / 146097, centuries, inCentury / 1461, years, inLeap - 365 * years⟩

def YearDay.year (d : YearDay) : Int := 400 * d.cycles + 100 * d.centuries + 4 * d.leaps + d.years

/-- The month since March that holds a day of the year, and its first day. -/
def monthOf (days : Int) : Int := (5 * days + 2) / 153

def monthStart (month : Int) : Int := (153 * month + 2) / 5

def yearStart (year : Int) : Int :=
  146097 * (year / 400) + 36524 * (year % 400 / 100) + 1461 * (year % 100 / 4) + 365 * (year % 4)

structure InRange (d : YearDay) : Prop where
  centuries : 0 ≤ d.centuries ∧ d.centuries ≤ 3
  leaps : 0 ≤ d.leaps ∧ d.leaps ≤ 24
  years : 0 ≤ d.years ∧ d.years ≤ 3
  days : 0 ≤ d.days ∧ d.days ≤ 365

variable {value time : Int} (day : Int) (digits : JsString) (width : Nat) (fields : Fields)

theorem inRange_yearDay : InRange (yearDay day) := by
  constructor <;> simp only [yearDay] <;> omega

theorem yearStart_year {d : YearDay} (range : InRange d) :
    yearStart d.year = 146097 * d.cycles + 36524 * d.centuries + 1461 * d.leaps + 365 * d.years := by
  obtain ⟨centuries, leaps, years, _⟩ := range
  simp only [yearStart, YearDay.year]
  omega

theorem yearStart_yearDay : yearStart (yearDay day).year + (yearDay day).days = day := by
  rw [yearStart_year (inRange_yearDay day)]
  simp only [yearDay]
  omega

/-- The fields of a time value in the text, by the calendar. -/
structure Fields where
  year : Int
  month : Int
  day : Int
  hour : Int
  minute : Int
  second : Int
  millisecond : Int
  deriving DecidableEq, Repr

def fieldsOf (time : Int) : Fields :=
  let date := yearDay (time / 86400000 + epochDay)
  let month := monthOf date.days
  { year := date.year + month / 10
    month := (month + 2) % 12 + 1
    day := date.days - monthStart month + 1
    hour := time % 86400000 / 3600000
    minute := time % 3600000 / 60000
    second := time % 60000 / 1000
    millisecond := time % 1000 }

def timeOf (fields : Fields) : Int :=
  let month := (fields.month + 9) % 12
  86400000 * (yearStart (fields.year - month / 10) + monthStart month + fields.day - 1 - epochDay) +
    3600000 * fields.hour + 60000 * fields.minute + 1000 * fields.second + fields.millisecond

theorem timeOf_fieldsOf (time : Int) : timeOf (fieldsOf time) = time := by
  have days := (inRange_yearDay (time / 86400000 + epochDay)).days
  have start := yearStart_yearDay (time / 86400000 + epochDay)
  simp only [timeOf, fieldsOf]
  generalize yearDay (time / 86400000 + epochDay) = date at *
  have months : 0 ≤ monthOf date.days ∧ monthOf date.days ≤ 11 := by
    simp only [monthOf]
    omega
  have month : ((monthOf date.days + 2) % 12 + 1 + 9) % 12 = monthOf date.days := by omega
  rw [month, add_sub_cancel_right]
  omega

structure Written (fields : Fields) : Prop where
  year : -1000000 < fields.year ∧ fields.year < 1000000
  month : 0 ≤ fields.month ∧ fields.month < 100
  day : 0 ≤ fields.day ∧ fields.day < 100
  hour : 0 ≤ fields.hour ∧ fields.hour < 100
  minute : 0 ≤ fields.minute ∧ fields.minute < 100
  second : 0 ≤ fields.second ∧ fields.second < 100
  millisecond : 0 ≤ fields.millisecond ∧ fields.millisecond < 1000

theorem written_fieldsOf (range : -maxTime ≤ time ∧ time ≤ maxTime) : Written (fieldsOf time) := by
  have date := inRange_yearDay (time / 86400000 + epochDay)
  have months : 0 ≤ monthOf (yearDay (time / 86400000 + epochDay)).days ∧
      monthOf (yearDay (time / 86400000 + epochDay)).days ≤ 11 := by
    have days := date.days
    simp only [monthOf]
    omega
  constructor
  · have cycles : (yearDay (time / 86400000 + epochDay)).cycles = (time / 86400000 + epochDay) / 146097 := rfl
    obtain ⟨centuries, leaps, years, _⟩ := date
    simp only [fieldsOf, YearDay.year, cycles]
    simp only [maxTime, epochDay] at *
    omega
  · simp only [fieldsOf]
    omega
  · have days := date.days
    simp only [fieldsOf, monthStart, monthOf]
    omega
  all_goals
    simp only [fieldsOf]
    omega

def digit (value : Int) : CodeUnit := unit (0x30 + value.toNat)

def digitValue (c : CodeUnit) : Int := c.val - 0x30

/-- The last digits of a number, as many as the width says. -/
def padded : Nat → Int → JsString
  | 0, _ => []
  | width + 1, value => padded width (value / 10) ++ [digit (value % 10)]

def number (digits : JsString) : Int := digits.foldl (fun value c => 10 * value + digitValue c) 0

def yearText (year : Int) : JsString :=
  if 0 ≤ year ∧ year < 10000 then padded 4 year
  else if 0 ≤ year then text "+" ++ padded 6 year
  else text "-" ++ padded 6 (-year)

def readYear (digits : JsString) : Int :=
  match digits with
  | [] => 0
  | sign :: rest =>
    if [sign] = text "+" then number rest else if [sign] = text "-" then -number rest else number digits

def afterYear (fields : Fields) : JsString :=
  text "-" ++ padded 2 fields.month ++ text "-" ++ padded 2 fields.day ++ text "T" ++ padded 2 fields.hour ++
    text ":" ++ padded 2 fields.minute ++ text ":" ++ padded 2 fields.second ++ text "." ++
      padded 3 fields.millisecond ++ text "Z"

def fieldsText (fields : Fields) : JsString := yearText fields.year ++ afterYear fields

def readFields (value : JsString) : Fields :=
  let rest := value.drop (value.length - 20)
  let part (start width : Nat) : Int := number ((rest.drop start).take width)
  { year := readYear (value.take (value.length - 20))
    month := part 1 2
    day := part 4 2
    hour := part 7 2
    minute := part 10 2
    second := part 13 2
    millisecond := part 16 3 }

/-- `Date.prototype.toISOString`; a time value out of range throws. -/
def toISOString (time : Int) : Option JsString :=
  if -maxTime ≤ time ∧ time ≤ maxTime then some (fieldsText (fieldsOf time)) else none

/-- `new Date(value).getTime()`: the text of a time value is read back, any other
text by the given reader of the host. -/
def getTime (other : JsString → Option Int) (value : JsString) : Option Int :=
  let time := timeOf (readFields value)
  if toISOString time = some value then some time else other value

theorem digitValue_digit (range : 0 ≤ value ∧ value < 10) : digitValue (digit value) = value := by
  have small : (0x30 + value.toNat) % 65536 = 0x30 + value.toNat := Nat.mod_eq_of_lt (by omega)
  simp only [digitValue, digit, unit, Fin.val_ofNat, small]
  omega

theorem number_append (c : CodeUnit) : number (digits ++ [c]) = 10 * number digits + digitValue c := by
  rw [number, foldl_append]
  rfl

theorem length_padded (value : Int) : (padded width value).length = width := by
  induction width generalizing value with
  | zero => rfl
  | succ width ih => rw [padded, length_append, ih, length_singleton]

theorem number_padded (range : 0 ≤ value ∧ value < 10 ^ width) : number (padded width value) = value := by
  induction width generalizing value with
  | zero =>
    have zero : value = 0 := by
      rw [pow_zero] at range
      omega
    rw [zero]
    rfl
  | succ width ih =>
    rw [pow_succ] at range
    rw [padded, number_append, ih (by omega), digitValue_digit (by omega)]
    omega

theorem head_padded (value : Int) : ∃ c rest, padded (width + 1) value = c :: rest ∧
    ∃ low, 0 ≤ low ∧ low < 10 ∧ c = digit low := by
  induction width generalizing value with
  | zero => exact ⟨digit (value % 10), [], rfl, value % 10, by omega, by omega, rfl⟩
  | succ width ih =>
    obtain ⟨c, rest, starts, isDigit⟩ := ih (value / 10)
    exact ⟨c, rest ++ [digit (value % 10)], by rw [padded, starts]; rfl, isDigit⟩

theorem readYear_plus : readYear (text "+" ++ digits) = number digits := by
  have sign : text "+" = [unit 0x2B] := by decide
  rw [sign, singleton_append, readYear, if_pos sign.symm]

theorem readYear_minus : readYear (text "-" ++ digits) = -number digits := by
  have sign : text "-" = [unit 0x2D] := by decide
  have other : [unit 0x2D] ≠ text "+" := by decide
  rw [sign, singleton_append, readYear, if_neg other, if_pos sign.symm]

theorem readYear_yearText {year : Int} (range : -1000000 < year ∧ year < 1000000) : readYear (yearText year) = year := by
  unfold yearText
  split
  next short =>
    obtain ⟨c, rest, starts, low, least, most, isDigit⟩ := head_padded 3 year
    have plain : ∀ sign : Nat, sign < 0x30 → c ≠ unit sign := by
      intro sign small same
      have value := congrArg Fin.val (isDigit.symm.trans same)
      simp only [digit, unit, Fin.val_ofNat] at value
      omega
    have plus : [c] ≠ text "+" := fun same => plain 0x2B (by decide) (singleton_inj.mp same)
    have minus : [c] ≠ text "-" := fun same => plain 0x2D (by decide) (singleton_inj.mp same)
    have read := number_padded 4 (show 0 ≤ year ∧ year < 10 ^ 4 by omega)
    rw [starts] at read ⊢
    rw [readYear, if_neg plus, if_neg minus, read]
  next =>
    split
    · rw [readYear_plus, number_padded 6 (by omega)]
    · rw [readYear_minus, number_padded 6 (by omega), neg_neg]

theorem length_afterYear : (afterYear fields).length = 20 := by
  simp only [afterYear, length_append, length_padded]
  rfl

theorem afterYear_marks : afterYear fields =
    [unit 0x2D] ++ padded 2 fields.month ++ [unit 0x2D] ++ padded 2 fields.day ++ [unit 0x54] ++
      padded 2 fields.hour ++ [unit 0x3A] ++ padded 2 fields.minute ++ [unit 0x3A] ++ padded 2 fields.second ++
        [unit 0x2E] ++ padded 3 fields.millisecond ++ [unit 0x5A] := by
  have dash : text "-" = [unit 0x2D] := by decide
  have day : text "T" = [unit 0x54] := by decide
  have colon : text ":" = [unit 0x3A] := by decide
  have point : text "." = [unit 0x2E] := by decide
  have zone : text "Z" = [unit 0x5A] := by decide
  rw [afterYear, dash, day, colon, point, zone]

theorem afterYear_parts :
    ((afterYear fields).drop 1).take 2 = padded 2 fields.month ∧
      ((afterYear fields).drop 4).take 2 = padded 2 fields.day ∧
      ((afterYear fields).drop 7).take 2 = padded 2 fields.hour ∧
      ((afterYear fields).drop 10).take 2 = padded 2 fields.minute ∧
      ((afterYear fields).drop 13).take 2 = padded 2 fields.second ∧
      ((afterYear fields).drop 16).take 3 = padded 3 fields.millisecond := by
  rw [afterYear_marks]
  simp only [padded, nil_append, cons_append, drop_succ_cons, drop_zero, take_succ_cons,
    take_zero, and_self]

theorem readFields_fieldsText {fields : Fields} (written : Written fields) : readFields (fieldsText fields) = fields := by
  have length : (fieldsText fields).length - 20 = (yearText fields.year).length := by
    rw [fieldsText, length_append, length_afterYear]
    omega
  have year : (fieldsText fields).take (yearText fields.year).length = yearText fields.year := take_left' rfl
  have rest : (fieldsText fields).drop (yearText fields.year).length = afterYear fields := drop_left' rfl
  obtain ⟨month, day, hour, minute, second, millisecond⟩ := afterYear_parts fields
  simp only [readFields, length, year, rest, month, day, hour, minute, second, millisecond,
    readYear_yearText written.year, number_padded 2 written.month, number_padded 2 written.day,
    number_padded 2 written.hour, number_padded 2 written.minute, number_padded 2 written.second,
    number_padded 3 written.millisecond]

theorem getTime_toISOString (other : JsString → Option Int) {value : JsString} (written : toISOString time = some value) :
    getTime other value = some time := by
  have range : -maxTime ≤ time ∧ time ≤ maxTime := by
    by_contra outside
    rw [toISOString, if_neg outside] at written
    contradiction
  have same : fieldsText (fieldsOf time) = value := by
    rw [toISOString, if_pos range] at written
    exact Option.some.inj written
  have read : timeOf (readFields value) = time := by
    rw [← same, readFields_fieldsText (written_fieldsOf range), timeOf_fieldsOf]
  rw [getTime, read]
  exact if_pos written

example : toISOString 0 = some (text "1970-01-01T00:00:00.000Z") := by decide +kernel

example : toISOString 1709164800123 = some (text "2024-02-29T00:00:00.123Z") := by decide +kernel

end Remnic.Text.IsoDate
