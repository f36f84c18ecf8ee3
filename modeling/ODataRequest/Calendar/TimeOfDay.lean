import ODataRequest.Text.Digits
import ODataRequest.Text.Cut

/-!
# ODataRequest.Calendar.TimeOfDay

Times of day to the nanosecond, `hh:mm[:ss[.fraction]]`. Seconds are always written, a fraction
only where it is not zero.
-/

namespace ODataRequest

/-- A time of day. -/
structure TimeOfDay where
  hour : Nat
  minute : Nat
  second : Nat
  nanosecond : Nat
  hour_lt : hour < 24
  minute_lt : minute < 60
  second_lt : second < 60
  nanosecond_lt : nanosecond < 1000000000
deriving DecidableEq

namespace TimeOfDay

/-- A time of its parts, if there is one. -/
def ofParts? (hour minute second nanosecond : Nat) : Option TimeOfDay :=
  if h : hour < 24 ∧ minute < 60 ∧ second < 60 ∧ nanosecond < 1000000000 then
    some ⟨hour, minute, second, nanosecond, h.1, h.2.1, h.2.2.1, h.2.2.2⟩
  else none

/-- Read `ss[.fraction]` as seconds and nanoseconds. -/
def seconds? (cs : List Char) : Option (Nat × Nat) :=
  match Text.cutAt? '.' cs with
  | none => (Text.twoDigits? cs).map fun s => (s, 0)
  | some (whole, fraction) => do
    let nanoseconds ← Text.nanoseconds? fraction
    return (← Text.twoDigits? whole, nanoseconds)

/-- Read `hh:mm[:ss[.fraction]]`. -/
def parse? (cs : List Char) : Option TimeOfDay := do
  let (hour, rest) ← Text.cutAt? ':' cs
  match Text.cutAt? ':' rest with
  | none => ofParts? (← Text.twoDigits? hour) (← Text.twoDigits? rest) 0 0
  | some (minute, rest) =>
    let (second, nanosecond) ← seconds? rest
    ofParts? (← Text.twoDigits? hour) (← Text.twoDigits? minute) second nanosecond

/-- The characters of a time of day. -/
def chars (t : TimeOfDay) : List Char :=
  Text.paddedDigits 2 t.hour ++ ':' :: Text.paddedDigits 2 t.minute ++
    ':' :: Text.paddedDigits 2 t.second ++
    (if t.nanosecond = 0 then [] else '.' :: Text.fractionDigits t.nanosecond)

/-- The text of a time of day. -/
def text (t : TimeOfDay) : String :=
  String.ofList t.chars

end TimeOfDay

end ODataRequest
