import RecordStore.Text.Basic

/-!
# Dates and durations

The two kinds of values that have to do with time: days of the calendar, of which it is known only
whether a text names one, and numbers of minutes, which are added.
-/

namespace RecordStore.Time

open RecordStore.Text

/-!
## Calendar dates

Dates are those of the Gregorian calendar, carried backwards before its introduction, with a year
zero and negative years. A date is written `year-month-day`. The reader is lenient in three ways
and in no others:

  * white space may stand before each of the three numbers;
  * a year without a sign has one to four digits, a year with one any number of digits;
  * month and day have one or two digits.

A dash follows its number directly, and nothing follows the day.

The reader stands for the date reader of a calendar package, to which it is left whether a text is a
date, and does what that one is documented to do. So the leniency, and the first and the last year,
are the package's doing and not a decision about datastores.
-/

/-- A year, a month and a day of the month. -/
structure Date where
  year : Int
  month : Nat
  day : Nat
  deriving Repr, DecidableEq

namespace Date

/-- The years that have an additional day. -/
def isLeapYear (year : Int) : Bool :=
  year % 4 = 0 && (year % 100 ≠ 0 || year % 400 = 0)

/-- The days of each month; none for a number that is no month. -/
def daysInMonth (year : Int) (month : Nat) : Nat :=
  match month with
  | 1 | 3 | 5 | 7 | 8 | 10 | 12 => 31
  | 4 | 6 | 9 | 11 => 30
  | 2 => if isLeapYear year then 29 else 28
  | _ => 0

/-- The first year that the calendar package has dates of. -/
def minYear : Int := -262143

/-- The last year that the calendar package has dates of. -/
def maxYear : Int := 262142

/-- Whether the numbers name a day of the calendar. -/
def isValid (d : Date) : Bool :=
  minYear ≤ d.year && d.year ≤ maxYear && 1 ≤ d.day && d.day ≤ daysInMonth d.year d.month

/-- The order of the calendar: earlier years first, then months, then days. -/
def before (a b : Date) : Prop :=
  a.year < b.year ∨ (a.year = b.year ∧
    (a.month < b.month ∨ (a.month = b.month ∧ a.day < b.day)))

instance (a b : Date) : Decidable (a.before b) := inferInstanceAs (Decidable (_ ∨ _))

/-! ### Reading -/

/-- Reads at least one digit, and no more than `limit` if there is one. -/
def number? (limit : Option Nat) (cs : List Char) : Option (Nat × List Char) :=
  let digits := cs.takeWhile Char.isDigit
  let digits := match limit with
    | some n => digits.take n
    | none => digits
  if digits.isEmpty then none
  else some (Nat.ofDigitChars 10 digits 0, cs.drop digits.length)

/-- Reads a year. -/
def year? (cs : List Char) : Option (Int × List Char) :=
  match cs.dropWhile isBlank with
  | '-' :: rest => (number? none rest).map fun (n, rest) => (-(n : Int), rest)
  | '+' :: rest => (number? none rest).map fun (n, rest) => ((n : Int), rest)
  | rest => (number? (some 4) rest).map fun (n, rest) => ((n : Int), rest)

/-- Reads a month or a day. -/
def part? (cs : List Char) : Option (Nat × List Char) := number? (some 2) (cs.dropWhile isBlank)

/-- Reads a dash. -/
def dash? : List Char → Option (List Char)
  | '-' :: rest => some rest
  | _ => none

/-- Reads the three numbers of a date, which need not name a day of the calendar. -/
def numbers? (cs : List Char) : Option Date := do
  let (year, rest) ← year? cs
  let (month, rest) ← part? (← dash? rest)
  let (day, rest) ← part? (← dash? rest)
  guard rest.isEmpty
  return ⟨year, month, day⟩

/-- Reads a date; the whole text must be one. This stands for the date reader of the calendar
    package, which makes a date of the three numbers it has read if there is such a day. -/
def parse? (s : String) : Option Date := (numbers? s.toList).filter isValid

end Date

/-!
## Durations in hours and minutes

A duration is a number of minutes below `2 ^ 64`, written `h:mm`: any number of digits of hours,
a colon, and two digits of minutes below sixty. Writing uses no superfluous zero in the hours, so
reading what was written gives the same minutes, and writing what was read drops only such zeros.
-/

namespace Duration

/-- The bound on hours and on minutes in all. -/
def bound : Nat := 0x10000000000000000

/-- The value of digits, where they are digits and their number is below the bound. -/
def digits? (cs : List Char) : Option Nat :=
  if cs.isEmpty || !cs.all Char.isDigit then none
  else
    let n := Nat.ofDigitChars 10 cs 0
    if n < bound then some n else none

/-- The minutes of a duration in `h:mm` form. -/
def parse? (s : String) : Option Nat := do
  let (hours, minutes) ← splitAtFirst? (· == ':') s.toList
  guard (minutes.length = 2)
  let h ← digits? hours
  let m ← digits? minutes
  guard (m < 60)
  let total := h * 60 + m
  guard (total < bound)
  return total

/-- Two digits. -/
def twoDigits (n : Nat) : String :=
  String.ofList [Nat.digitChar (n / 10), Nat.digitChar (n % 10)]

/-- The `h:mm` form of a number of minutes. -/
def format (minutes : Nat) : String :=
  toString (minutes / 60) ++ ":" ++ twoDigits (minutes % 60)

end Duration

end RecordStore.Time
