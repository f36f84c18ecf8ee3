import ODataRequest.Text.Digits
import ODataRequest.Text.Cut

/-!
# ODataRequest.Calendar.Duration

Durations of days, hours, minutes and seconds, `[-]P[nD][T[nH][nM][n[.fraction]S]]`, as a signed
number of nanoseconds. Years and months are not part of the format. The whole seconds are bounded
by 2^63.
-/

namespace ODataRequest

/-- A signed number of nanoseconds. -/
structure Duration where
  nanoseconds : Int
  bounded : nanoseconds.natAbs < Nat.pow 2 63 * 1000000000
deriving DecidableEq

namespace Duration

/-- The whole seconds, with the sign of the duration. -/
def wholeSeconds (d : Duration) : Int :=
  d.nanoseconds.tdiv 1000000000

/-- The nanoseconds beyond the whole seconds, with the sign of the duration. -/
def subsecond (d : Duration) : Int :=
  d.nanoseconds.tmod 1000000000

/-- Take `n` and the letter of a unit off the front; a text without the letter has none of it. -/
def component? (unit : Char) (cs : List Char) : Option (Nat × List Char) :=
  match Text.cutAt? unit cs with
  | none => some (0, cs)
  | some (ds, rest) => (Text.digits? ds).map fun n => (n, rest)

/-- Read a whole text as `n[.fraction]S`, in seconds and nanoseconds; an empty text has none. -/
def seconds? (cs : List Char) : Option (Nat × Nat) :=
  if cs.isEmpty then some (0, 0)
  else do
    let body ← Text.before? ['S'] cs
    match Text.cutAt? '.' body with
    | none => return (← Text.digits? body, 0)
    | some (whole, fraction) => return (← Text.digits? whole, ← Text.nanoseconds? fraction)

/-- Read a whole text as `nD`; an empty text has none. -/
def days? (cs : List Char) : Option Nat :=
  if cs.isEmpty then some 0 else (Text.before? ['D'] cs).bind Text.digits?

/-- Read the part behind the `T`, which is not empty, in seconds and nanoseconds. -/
def clock? (cs : List Char) : Option (Nat × Nat) := do
  guard !cs.isEmpty
  let (hours, cs) ← component? 'H' cs
  let (minutes, cs) ← component? 'M' cs
  let (seconds, nanoseconds) ← seconds? cs
  return (hours * 3600 + minutes * 60 + seconds, nanoseconds)

/-- Read what follows the `P`, in seconds and nanoseconds. -/
def magnitude? (cs : List Char) : Option (Nat × Nat) :=
  match Text.cutAt? 'T' cs with
  | none =>
    if cs.isEmpty then none else (days? cs).map fun days => (days * 86400, 0)
  | some (date, clock) => do
    let days ← days? date
    let (seconds, nanoseconds) ← clock? clock
    return (days * 86400 + seconds, nanoseconds)

/-- A duration of seconds and nanoseconds, inside the bounds. -/
def ofParts? (negative : Bool) (seconds nanoseconds : Nat) : Option Duration :=
  let total : Int := seconds * 1000000000 + nanoseconds
  let signed := if negative then -total else total
  if h : signed.natAbs < Nat.pow 2 63 * 1000000000 then some ⟨signed, h⟩ else none

/-- Read what follows the sign. -/
def unsigned? (negative : Bool) (cs : List Char) : Option Duration := do
  let (seconds, nanoseconds) ← magnitude? (← Text.behind? ['P'] cs)
  ofParts? negative seconds nanoseconds

/-- Read a duration. -/
def parse? : List Char → Option Duration
  | '-' :: cs => unsigned? true cs
  | cs => unsigned? false cs

/-- `n` and the letter of a unit, unless `n` is zero. -/
def componentChars (n : Nat) (unit : Char) : List Char :=
  if n = 0 then [] else Text.decimalDigits n ++ [unit]

/-- The characters of seconds, with a fraction of so many nanoseconds. -/
def secondChars (seconds nanoseconds : Nat) : List Char :=
  Text.decimalDigits seconds ++
    (if nanoseconds = 0 then [] else '.' :: Text.fractionDigits nanoseconds) ++ ['S']

/-- The characters behind the `T`: units that are zero are left out, but not all of them. -/
def clockChars (hours minutes seconds nanoseconds : Nat) : List Char :=
  componentChars hours 'H' ++ componentChars minutes 'M' ++
    if 0 < seconds ∨ 0 < nanoseconds ∨ (hours = 0 ∧ minutes = 0) then
      secondChars seconds nanoseconds
    else []

/-- The characters behind the `P`, of seconds and nanoseconds. The part behind the `T` is left out
if nothing is left for it but the days. -/
def magnitudeChars (seconds nanoseconds : Nat) : List Char :=
  componentChars (seconds / 86400) 'D' ++
    if 0 < seconds % 86400 ∨ 0 < nanoseconds ∨ seconds = 0 then
      'T' :: clockChars (seconds % 86400 / 3600) (seconds % 3600 / 60) (seconds % 60) nanoseconds
    else []

/-- The characters of a duration. -/
def chars (d : Duration) : List Char :=
  (if d.nanoseconds < 0 then ['-'] else []) ++
    'P' :: magnitudeChars d.wholeSeconds.natAbs d.subsecond.natAbs

/-- The text of a duration. -/
def text (d : Duration) : String :=
  String.ofList d.chars

end Duration

end ODataRequest
