import ODataRequest.Calendar.Date
import ODataRequest.Calendar.TimeOfDay

/-!
# ODataRequest.Calendar.DateTimeOffset

Points in time with their offset from UTC, in the format of RFC 3339. Between date and time any
one ASCII character may stand. Second 60 is a leap second: it is taken where a month ends in UTC,
and read as the last nanosecond before it. A text without seconds is completed by `:00`.
-/

namespace ODataRequest

/-- A date and a time of day at an offset of `offset` minutes from UTC. -/
structure DateTimeOffset where
  date : Date
  time : TimeOfDay
  offset : Int
deriving DecidableEq

namespace DateTimeOffset

/-- Take exactly two digits off the front. -/
def takeTwo? : List Char → Option (Nat × List Char)
  | a :: b :: cs => (Text.twoDigits? [a, b]).map fun n => (n, cs)
  | _ => none

/-- Take one given character off the front. -/
def take? (c : Char) : List Char → Option (List Char)
  | d :: cs => if d = c then some cs else none
  | [] => none

/-- Take a fraction of a second off the front, if there is one: nanoseconds. -/
def takeFraction? : List Char → Option (Nat × List Char)
  | '.' :: cs => do
    let nanoseconds ← Text.nanoseconds? (cs.takeWhile Char.isDigit)
    return (nanoseconds, cs.dropWhile Char.isDigit)
  | cs => some (0, cs)

/-- Read a whole text as an offset from UTC in minutes: `Z` of either case, or sign, hours below
24, and minutes below 60. -/
def offset? : List Char → Option Int
  | ['Z'] => some 0
  | ['z'] => some 0
  | sign :: cs => do
    guard (sign == '+' || sign == '-')
    let (hours, cs) ← takeTwo? cs
    let cs ← take? ':' cs
    let (minutes, cs) ← takeTwo? cs
    guard (hours ≤ 23 && minutes ≤ 59 && cs.isEmpty)
    let total : Int := 60 * hours + minutes
    return if sign == '-' then -total else total
  | [] => none

/-- Does the minute of a local time, taken in UTC, end a month? -/
def endsMonth (date : Date) (hour minute : Nat) (offset : Int) : Bool :=
  let inUtc := 60 * (hour : Int) + minute - offset
  if inUtc = 1439 then date.isEndOfMonth
  else if inUtc = 1439 + 1440 then (date.next?.map Date.isEndOfMonth).getD false
  else if inUtc = -1 then (date.previous?.map Date.isEndOfMonth).getD false
  else false

/-- Read a text that has seconds. -/
def parseFull? (cs : List Char) : Option DateTimeOffset := do
  let year ← Text.digits? (cs.take 4)
  guard ((cs.take 4).length = 4)
  let cs ← take? '-' (cs.drop 4)
  let (month, cs) ← takeTwo? cs
  let cs ← take? '-' cs
  let (day, cs) ← takeTwo? cs
  guard (cs.head?.any (·.toNat < 0x80))
  let (hour, cs) ← takeTwo? (cs.drop 1)
  let cs ← take? ':' cs
  let (minute, cs) ← takeTwo? cs
  let cs ← take? ':' cs
  let (second, cs) ← takeTwo? cs
  let (nanosecond, cs) ← takeFraction? cs
  let offset ← offset? cs
  let date ← Date.ofParts? year month day
  if second = 60 then
    let time ← TimeOfDay.ofParts? hour minute 59 999999999
    guard (endsMonth date hour minute offset)
    return ⟨date, time, offset⟩
  else
    let time ← TimeOfDay.ofParts? hour minute second nanosecond
    return ⟨date, time, offset⟩

/-- Put `:00` behind a five-character time without seconds. -/
def withSeconds? (cs : List Char) : Option (List Char) := do
  let (date, rest) ← Text.cutAt? 'T' cs
  let isOffsetStart := fun c => c == 'Z' || c == 'z' || c == '+' || c == '-'
  let time := rest.takeWhile fun c => !isOffsetStart c
  let offset := rest.dropWhile fun c => !isOffsetStart c
  guard (!offset.isEmpty && time.length = 5)
  return date ++ 'T' :: time ++ ":00".toList ++ offset

/-- Read a point in time, with or without seconds. -/
def parse? (cs : List Char) : Option DateTimeOffset :=
  (parseFull? cs).or ((withSeconds? cs).bind parseFull?)

/-- The characters of an offset: `Z` for UTC itself. -/
def offsetChars (offset : Int) : List Char :=
  if offset = 0 then ['Z']
  else
    (if offset < 0 then '-' else '+') :: Text.paddedDigits 2 (offset.natAbs / 60) ++
      ':' :: Text.paddedDigits 2 (offset.natAbs % 60)

/-- The text of a point in time. -/
def text (t : DateTimeOffset) : String :=
  String.ofList (t.date.chars ++ 'T' :: t.time.chars ++ offsetChars t.offset)

end DateTimeOffset

end ODataRequest
