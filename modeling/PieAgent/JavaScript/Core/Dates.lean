import PieAgent.JavaScript.Core.Strings
import Mathlib.Algebra.Order.Group.Int

/-! # Dates and local time

An instant is a number of milliseconds since the epoch. A time zone says how far local time is ahead at
every instant and which instant a local time names. Where clocks are turned back a local time occurs
twice, and it names its first occurrence. Offsets are whole minutes.
-/

namespace JavaScript

def msPerMinute : ℤ := 60000

def msPerDay : ℤ := 86400000

/-- A day of the proleptic Gregorian calendar. -/
structure CivilDate where
  year : ℤ
  month : ℤ
  day : ℤ

/-- The date of a day counted from the epoch, by the 400-year cycles that begin on the first of March. -/
def civilDate (days : ℤ) : CivilDate :=
  let shifted := days + 719468
  let era := shifted / 146097
  let dayOfEra := shifted % 146097
  let yearOfEra := (dayOfEra - dayOfEra / 1460 + dayOfEra / 36524 - dayOfEra / 146096) / 365
  let dayOfYear := dayOfEra - (365 * yearOfEra + yearOfEra / 4 - yearOfEra / 100)
  let shiftedMonth := (5 * dayOfYear + 2) / 153
  let month := if shiftedMonth < 10 then shiftedMonth + 3 else shiftedMonth - 9
  { year := yearOfEra + era * 400 + (if month ≤ 2 then 1 else 0)
    month
    day := dayOfYear - (153 * shiftedMonth + 2) / 5 + 1 }

/-- The day of the week, Sunday being 0. -/
def weekDay (days : ℤ) : ℤ := (days + 4) % 7

structure TimeZone where
  /-- How many minutes local time is ahead of UTC at an instant. -/
  offset : ℤ → ℤ
  /-- The instant that a local time names. -/
  instant : ℤ → ℤ
  instant_local (time : ℤ) :
    instant (time + offset time * msPerMinute) + offset (instant (time + offset time * msPerMinute)) * msPerMinute =
      time + offset time * msPerMinute
  instant_le (time : ℤ) : instant (time + offset time * msPerMinute) ≤ time

namespace TimeZone

def utc : TimeZone where
  offset _ := 0
  instant time := time
  instant_local _ := by simp
  instant_le _ := by simp

/-- A zone an hour ahead until clocks are turned back at an instant. -/
def turnedBack (change : ℤ) : TimeZone where
  offset time := if time < change then 60 else 0
  instant time := if time < change + 60 * msPerMinute then time - 60 * msPerMinute else time
  instant_local time := by
    simp only [msPerMinute]
    split_ifs <;> omega
  instant_le time := by
    simp only [msPerMinute]
    split_ifs <;> omega

variable (zone : TimeZone) (time : ℤ)

/-- Local time at an instant. -/
def localTime : ℤ := time + zone.offset time * msPerMinute

def localDay : ℤ := zone.localTime time / msPerDay

def getMinutes : ℤ := zone.localTime time / msPerMinute % 60

def getHours : ℤ := zone.localTime time / (60 * msPerMinute) % 24

def getDate : ℤ := (civilDate (zone.localDay time)).day

/-- `getMonth() + 1`. -/
def getMonthOfYear : ℤ := (civilDate (zone.localDay time)).month

def getDay : ℤ := weekDay (zone.localDay time)

/-- `setSeconds(0, 0)`: local time without its seconds, and the instant which that names. -/
def setSecondsZero : ℤ := zone.instant (zone.localTime time - zone.localTime time % msPerMinute)

end TimeZone

/-- A number of at least `width` digits. -/
def padStart (width : ℕ) (n : ℕ) : JsString := List.replicate (width - (digits n).length) 0x30 ++ digits n

/-- The year as ISO texts print it. -/
def isoYear (year : ℤ) : JsString :=
  if 0 ≤ year ∧ year ≤ 9999 then padStart 4 year.toNat
  else (if year < 0 then js "-" else js "+") ++ padStart 6 year.natAbs

/-- `Date.prototype.toISOString` up to the seconds. -/
def isoSeconds (time : ℤ) : JsString :=
  let date := civilDate (time / msPerDay)
  isoYear date.year ++ js "-" ++ padStart 2 date.month.toNat ++ js "-" ++ padStart 2 date.day.toNat ++ js "T" ++
    padStart 2 (time / 3600000 % 24).toNat ++ js ":" ++ padStart 2 (time / msPerMinute % 60).toNat ++ js ":" ++
    padStart 2 (time / 1000 % 60).toNat

def toISOString (time : ℤ) : JsString := isoSeconds time ++ js "." ++ padStart 3 (time % 1000).toNat ++ js "Z"

end JavaScript
