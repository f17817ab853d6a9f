import ModelWeaver.Number.Decimal
import ModelWeaver.Toml.Reader

/-!
# Points in time

Dates and times of day as settings hold them: how they are written and how they are
read. A point in time that is written is read as the same one.
-/

namespace ModelWeaver.Toml

open Number

/-- A day. -/
structure Date where
  year : Nat
  month : Nat
  day : Nat
  deriving DecidableEq, Repr, Inhabited

/-- A time of day. -/
structure Time where
  hour : Nat
  minute : Nat
  second : Nat
  nanosecond : Nat := 0
  deriving DecidableEq, Repr, Inhabited

/-- The difference between local and universal time. -/
inductive Offset where
  | zulu
  | minutes (minutes : Int)
  deriving DecidableEq, Repr, Inhabited

/-- A date, a time of day, or both, perhaps with an offset. -/
structure Moment where
  date : Option Date := none
  time : Option Time := none
  offset : Option Offset := none
  deriving DecidableEq, Repr, Inhabited

/-! ## Writing -/

/-- A number with leading zeros, up to a given width. -/
def padded (width n : Nat) : String :=
  let digits := Nat.toDigits 10 n
  String.ofList (List.replicate (width - digits.length) '0' ++ digits)

/-- How a day is written. -/
def Date.render (date : Date) : String :=
  padded 4 date.year ++ "-" ++ padded 2 date.month ++ "-" ++ padded 2 date.day

/-- How a time of day is written; a fraction has no zeros at its end. -/
def Time.render (time : Time) : String :=
  let whole := padded 2 time.hour ++ ":" ++ padded 2 time.minute ++ ":" ++ padded 2 time.second
  if time.nanosecond = 0 then whole
  else
    let digits := (padded 9 time.nanosecond).toList.reverse.dropWhile (· = '0')
    whole ++ "." ++ String.ofList digits.reverse

/-- How an offset is written. -/
def Offset.render : Offset → String
  | zulu => "Z"
  | minutes n =>
    let sign := if n < 0 then "-" else "+"
    sign ++ padded 2 (n.natAbs / 60) ++ ":" ++ padded 2 (n.natAbs % 60)

/-- How a point in time is written. -/
def Moment.render (moment : Moment) : String :=
  let parts := moment.date.toList.map Date.render ++ moment.time.toList.map Time.render
  "T".intercalate parts ++ (moment.offset.map Offset.render).getD ""

/-! ## Reading -/

open Reader

/-- The highest numbers that a time of day and an offset may show. -/
structure Moment.Limits where
  hour : Nat
  offsetHour : Nat
  offsetMinute : Nat

/-- Read exactly `count` decimal digits. -/
def fixedDigits (count : Nat) : Reader Nat := do
  let taken := (← get).take count
  if taken.length = count && taken.all Char.isDigit then
    modify (·.drop count)
    return digitsValue taken
  else failure

/-- Read a number of two digits within bounds. -/
def twoDigits (low high : Nat) : Reader Nat := do
  let n ← fixedDigits 2
  if low ≤ n && n ≤ high then return n else failure

/-- The number of days of a month. -/
def daysIn (year month : Nat) : Nat :=
  if month = 2 then
    if year % 4 = 0 && (year % 100 ≠ 0 || year % 400 = 0) then 29 else 28
  else if [4, 6, 9, 11].contains month then 30
  else 31

/-- Read a day. -/
def Date.read : Reader Date := do
  let year ← fixedDigits 4
  char '-'
  let month ← twoDigits 1 12
  char '-'
  let day ← twoDigits 1 (daysIn year month)
  return { year, month, day }

/-- Read a fraction of a second in nanoseconds; digits after the ninth do not
count. -/
def nanoseconds : Reader Nat := do
  char '.'
  let taken := (← takeSome Char.isDigit).take 9
  return digitsValue taken * tenPow (9 - taken.length)

/-- Read a time of day. A minute may have a leap second. -/
def Time.read (limits : Moment.Limits) : Reader Time := do
  let hour ← twoDigits 0 limits.hour
  char ':'
  let minute ← twoDigits 0 59
  char ':'
  let second ← twoDigits 0 60
  let fraction ← maybe nanoseconds
  return { hour, minute, second, nanosecond := fraction.getD 0 }

/-- Read the difference to universal time, which is at most a day. -/
def Offset.read (limits : Moment.Limits) : Reader Offset :=
  (do discard (satisfying fun c => c = 'Z' || c = 'z'); return .zulu) <|> do
    let mark ← satisfying fun c => c = '+' || c = '-'
    let hours ← twoDigits 0 limits.offsetHour
    char ':'
    let minutes ← twoDigits 0 limits.offsetMinute
    let total := hours * 60 + minutes
    if 24 * 60 < total then failure
    return .minutes (if mark = '-' then -total else total)

/-- Read a point in time. -/
def Moment.read (limits : Moment.Limits) : Reader Moment :=
  (do let day ← Date.read
      let rest ← maybe (do
        discard (satisfying fun c => c = 'T' || c = 't' || c = ' ')
        let clock ← Time.read limits
        return (clock, ← maybe (Offset.read limits)))
      match rest with
      | some (clock, shift) => return { date := some day, time := some clock, offset := shift }
      | none => return { date := some day }) <|>
  (do return { time := some (← Time.read limits) })

/-- The limits of a point in time that stands for itself in a settings file. -/
def Moment.plainLimits : Moment.Limits := { hour := 23, offsetHour := 23, offsetMinute := 59 }

/-- The limits of a point in time that is given as a text. -/
def Moment.textLimits : Moment.Limits := { hour := 24, offsetHour := 99, offsetMinute := 99 }

/-- The point in time that a text consists of. -/
def Moment.ofText? (text : String) : Option Moment := whole? (read textLimits) text.toList

end ModelWeaver.Toml
