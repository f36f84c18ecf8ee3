import ODataRequest.Text.Digits
import ODataRequest.Text.Cut

/-!
# ODataRequest.Calendar.Date

Calendar dates of the proleptic Gregorian calendar from year -9999 to year 9999. A date is written
with at least four digits for the year and two for month and day.
-/

namespace ODataRequest

/-- Leap years of the Gregorian calendar. -/
def isLeapYear (year : Int) : Bool :=
  year % 4 == 0 && (year % 100 != 0 || year % 400 == 0)

/-- The number of days of a month, counted from 1. -/
def daysInMonth (year : Int) (month : Nat) : Nat :=
  match month with
  | 2 => if isLeapYear year then 29 else 28
  | 4 | 6 | 9 | 11 => 30
  | _ => 31

/-- The dates of the calendar. -/
def isCalendarDate (year : Int) (month day : Nat) : Bool :=
  -9999 ≤ year && year ≤ 9999 && 1 ≤ month && month ≤ 12 && 1 ≤ day && day ≤ daysInMonth year month

/-- A date of the calendar. -/
structure Date where
  year : Int
  month : Nat
  day : Nat
  valid : isCalendarDate year month day = true
deriving DecidableEq

namespace Date

/-- A date of its parts, if there is one. -/
def ofParts? (year : Int) (month day : Nat) : Option Date :=
  if h : isCalendarDate year month day = true then some ⟨year, month, day, h⟩ else none

/-- Read `yyyy-mm-dd` behind a sign; the year may have more than four digits. -/
def unsigned? (negative : Bool) (cs : List Char) : Option Date := do
  let (year, rest) ← Text.cutAt? '-' cs
  let (month, day) ← Text.cutAt? '-' rest
  guard (4 ≤ year.length)
  let y ← Text.digits? year
  ofParts? (if negative then -(y : Int) else y) (← Text.twoDigits? month) (← Text.twoDigits? day)

/-- Read `[-]yyyy-mm-dd`. -/
def parse? : List Char → Option Date
  | '-' :: cs => unsigned? true cs
  | cs => unsigned? false cs

/-- The characters of a date behind its sign. -/
def unsignedChars (d : Date) : List Char :=
  Text.paddedDigits 4 d.year.natAbs ++
    '-' :: (Text.paddedDigits 2 d.month ++ '-' :: Text.paddedDigits 2 d.day)

/-- The characters of a date. -/
def chars (d : Date) : List Char :=
  if d.year < 0 then '-' :: d.unsignedChars else d.unsignedChars

/-- The text of a date. -/
def text (d : Date) : String :=
  String.ofList d.chars

/-- The last day of its month. -/
def isEndOfMonth (d : Date) : Bool :=
  d.day == daysInMonth d.year d.month

/-- The day after, inside the calendar. -/
def next? (d : Date) : Option Date :=
  if !d.isEndOfMonth then ofParts? d.year d.month (d.day + 1)
  else if d.month < 12 then ofParts? d.year (d.month + 1) 1
  else ofParts? (d.year + 1) 1 1

/-- The day before, inside the calendar. -/
def previous? (d : Date) : Option Date :=
  if 1 < d.day then ofParts? d.year d.month (d.day - 1)
  else if 1 < d.month then ofParts? d.year (d.month - 1) (daysInMonth d.year (d.month - 1))
  else ofParts? (d.year - 1) 12 31

end Date

end ODataRequest
