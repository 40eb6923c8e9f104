import Mathlib.Data.Finset.Basic
import Mathlib.Data.Finset.Dedup
import PieAgent.JavaScript.Core.Dates

/-! # Cron expressions

A schedule has five fields. Each field is a list of values, ranges and steps, and a minute matches when
every field holds its local value. The search for the next run starts at the minute after an instant and
tries every minute of the next five years.
-/

namespace PieAgent.Model

open JavaScript

inductive CronScheduleError where
  | wrongFieldCount
  | invalidField (field reason : JsString)
deriving DecidableEq

def CronScheduleError.message : CronScheduleError → JsString
  | .wrongFieldCount => js "cron schedule must have 5 fields: minute hour day-of-month month day-of-week"
  | .invalidField field reason => js "invalid cron field `" ++ field ++ js "`: " ++ reason

structure CronExpression where
  minutes : Finset ℕ
  hours : Finset ℕ
  daysOfMonth : Finset ℕ
  months : Finset ℕ
  daysOfWeek : Finset ℕ
deriving DecidableEq

/-- The number that `/^\+?\d+$/` accepts. -/
def unsigned? (raw : JsString) : Option ℕ :=
  let figures := if raw.head? = some 0x2B then raw.tail else raw
  if figures ≠ [] ∧ figures.all (fun unit => 0x30 ≤ unit && unit ≤ 0x39) then
    some (figures.foldl (fun value unit => 10 * value + (unit.toNat - 0x30)) 0)
  else none

def parseNumber (field raw : JsString) (min max : ℕ) : Except CronScheduleError ℕ :=
  match unsigned? raw with
  | none => .error (.invalidField field (js "`" ++ raw ++ js "` is not a number"))
  | some value =>
    if value < min ∨ max < value then
      .error (.invalidField field (js "value " ++ digits value ++ js " outside " ++ digits min ++ js "-" ++ digits max))
    else .ok value

/-- The range and the step of an item, the step being what follows its first slash. -/
def splitStep (field part : JsString) : Except CronScheduleError (JsString × ℕ) :=
  if 0x2F ∈ part then
    match unsigned? (part.dropWhile (· ≠ 0x2F)).tail with
    | none => .error (.invalidField field (js "step must be a positive integer"))
    | some 0 => .error (.invalidField field (js "step must be at least 1"))
    | some step => .ok (part.takeWhile (· ≠ 0x2F), step)
  else .ok (part, 1)

/-- The first and the last value of a range. -/
def parseRange (field rangePart : JsString) (min max : ℕ) : Except CronScheduleError (ℕ × ℕ) :=
  if rangePart = js "*" then .ok (min, max)
  else if 0x2D ∈ rangePart then do
    let start ← parseNumber field (rangePart.takeWhile (· ≠ 0x2D)) min max
    let last ← parseNumber field (rangePart.dropWhile (· ≠ 0x2D)).tail min max
    pure (start, last)
  else do
    let value ← parseNumber field rangePart min max
    pure (value, value)

/-- The values of one item of a field. -/
def parseItem (field part : JsString) (min max : ℕ) : Except CronScheduleError (Finset ℕ) := do
  if part = [] then throw (.invalidField field (js "empty item"))
  let (rangePart, step) ← splitStep field part
  let (start, last) ← parseRange field rangePart min max
  if last < start then throw (.invalidField field (js "range start must be <= range end"))
  pure ((List.range ((last - start) / step + 1)).map fun k => start + k * step).toFinset

def parseField (field : JsString) (min max : ℕ) : Except CronScheduleError (Finset ℕ) :=
  (field.splitOn 0x2C).foldlM (fun out rawPart => (parseItem field (trim rawPart) min max).map (out ∪ ·)) ∅

/-- Both 0 and 7 are Sunday. -/
def parseDayOfWeek (field : JsString) : Except CronScheduleError (Finset ℕ) :=
  (parseField field 0 7).map fun set => if 7 ∈ set then insert 0 (set.erase 7) else set

/-- The pieces between white space. -/
def fieldsOf (input : JsString) : List JsString :=
  (input.splitOnP fun unit => isWhitespace unit.toNat).filter (· ≠ [])

def parseCronExpression (input : JsString) : Except CronScheduleError CronExpression :=
  match fieldsOf input with
  | [minute, hour, dayOfMonth, month, dayOfWeek] => do
    let minutes ← parseField minute 0 59
    let hours ← parseField hour 0 23
    let daysOfMonth ← parseField dayOfMonth 1 31
    let months ← parseField month 1 12
    let daysOfWeek ← parseDayOfWeek dayOfWeek
    pure { minutes, hours, daysOfMonth, months, daysOfWeek }
  | _ => .error .wrongFieldCount

def fiveYearsMs : ℤ := 366 * 5 * msPerDay

namespace CronExpression

variable (zone : TimeZone) (expr : CronExpression)

/-- `cronExpressionMatches`. -/
def matchesAt (time : ℤ) : Bool :=
  (zone.getMinutes time).toNat ∈ expr.minutes && (zone.getHours time).toNat ∈ expr.hours &&
    (zone.getDate time).toNat ∈ expr.daysOfMonth && (zone.getMonthOfYear time).toNat ∈ expr.months &&
    (zone.getDay time).toNat ∈ expr.daysOfWeek

/-- The first of a number of candidates, each a minute after the one before, that matches. -/
def firstMatch : ℕ → ℤ → Option ℤ
  | 0, _ => none
  | count + 1, candidate =>
    if expr.matchesAt zone candidate then some candidate else firstMatch count (candidate + msPerMinute)

/-- `cronExpressionNextAfter`: the candidates go up to five years after the instant. -/
def nextAfter (after : ℤ) : Option ℤ :=
  let candidate := zone.setSecondsZero (after + msPerMinute)
  let limit := after + fiveYearsMs
  expr.firstMatch zone ((limit - candidate) / msPerMinute + 1).toNat candidate

end CronExpression

end PieAgent.Model
