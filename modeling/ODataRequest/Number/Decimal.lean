import ODataRequest.Text.Digits
import ODataRequest.Text.Cut

/-!
# ODataRequest.Number.Decimal

Decimal numbers with a 96-bit mantissa and at most 28 places after the point. Reading keeps the
number of places written, trailing zeros included, and rounds where a digit no longer fits: the
first digit dropped decides, from five on upwards.
-/

namespace ODataRequest

/-- The number `mantissa / 10 ^ scale` with a sign; zero has none. -/
structure Decimal where
  negative : Bool
  mantissa : Nat
  scale : Nat
  mantissa_lt : mantissa < Nat.pow 2 96
  scale_le : scale ≤ 28
  sign_of_zero : mantissa = 0 → negative = false

namespace Decimal

/-- A decimal of its parts, if they are in range; the sign of zero is dropped. -/
def ofParts? (negative : Bool) (mantissa scale : Nat) : Option Decimal :=
  if h : mantissa < Nat.pow 2 96 ∧ scale ≤ 28 then
    some ⟨negative && mantissa != 0, mantissa, scale, h.1, h.2, by intro h; simp [h]⟩
  else none

/-- The shape of a decimal text: sign, whole digits, fraction digits, and exponent. -/
structure Shape where
  negative : Bool
  whole : List Char
  fraction : List Char
  exponent : Option (Bool × List Char)

/-- Read `[sign] digits [. digits] [e [sign] digits]`. -/
def shape? (cs : List Char) : Option Shape := do
  let (negative, body) := Text.signed cs
  let (significand, exponent) :=
    match Text.cut? (fun c => c == 'e' || c == 'E') body with
    | some (s, e) => (s, some (Text.signed e))
    | none => (body, none)
  let (whole, fraction) :=
    match Text.cutAt? '.' significand with
    | some (w, f) => (w, some f)
    | none => (significand, none)
  guard (Text.isDigits whole)
  guard ((fraction.map Text.isDigits).getD true)
  guard ((exponent.map fun e => Text.isDigits e.2).getD true)
  return ⟨negative, whole, fraction.getD [], exponent⟩

/-- Mantissa and scale after rounding by the first digit that was dropped. A mantissa that leaves
its range by this gives up its last place. -/
def roundedBy (mantissa scale digit : Nat) : Option (Nat × Nat) :=
  if digit < 5 then some (mantissa, scale)
  else if mantissa + 1 < Nat.pow 2 96 then some (mantissa + 1, scale)
  else if scale = 0 then none
  else some ((mantissa + 5) / 10, scale - 1)

/-- Append fraction digits to a mantissa as long as they fit. -/
def takePlaces (mantissa scale : Nat) : List Char → Option (Nat × Nat)
  | [] => some (mantissa, scale)
  | c :: cs =>
    let digit := c.toNat - '0'.toNat
    if scale < 28 ∧ 10 * mantissa + digit < Nat.pow 2 96 then
      takePlaces (10 * mantissa + digit) (scale + 1) cs
    else roundedBy mantissa scale digit

/-- The decimal written without exponent. -/
def ofDigits? (negative : Bool) (whole fraction : List Char) : Option Decimal := do
  let n := Text.digitsValue whole
  guard (n < Nat.pow 2 96)
  let (mantissa, scale) ← takePlaces n 0 fraction
  ofParts? negative mantissa scale

/-- Move the point: left over at most 28 places, right over the places there are, and beyond them
by zeros, where at most 28 may be asked for. -/
def shifted? (d : Decimal) (left : Bool) (places : Nat) : Option Decimal :=
  if left then
    if places ≤ 28 then ofParts? d.negative d.mantissa (d.scale + places) else none
  else if places ≤ d.scale then ofParts? d.negative d.mantissa (d.scale - places)
  else if places ≤ 28 then ofParts? d.negative (d.mantissa * Nat.pow 10 (places - d.scale)) 0
  else none

/-- Read a decimal text. -/
def parse? (cs : List Char) : Option Decimal := do
  let s ← shape? cs
  let d ← ofDigits? s.negative s.whole s.fraction
  match s.exponent with
  | none => return d
  | some (left, digits) => d.shifted? left (Text.digitsValue digits)

/-- The text of a decimal with all its places. -/
def text (d : Decimal) : String :=
  let digits := Text.paddedDigits (d.scale + 1) d.mantissa
  let whole := digits.take (digits.length - d.scale)
  let places := digits.drop (digits.length - d.scale)
  let sign := if d.negative then "-" else ""
  sign ++ String.ofList (if d.scale = 0 then whole else whole ++ '.' :: places)

end Decimal

end ODataRequest
