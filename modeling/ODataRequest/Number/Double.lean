import ODataRequest.Number.Decimal

/-!
# ODataRequest.Number.Double

Binary floating point numbers, read and written in exact integer arithmetic.

* `nearest` gives the number of a binary format that is nearest to a fraction, the even one of two
  that are equally near.
* `shortest` gives the fewest decimal digits that read back as the same number, of those the
  nearest to it, and of two that are equally near the larger.

Texts are positional: there is no exponent, whatever the size of the number.
-/

namespace ODataRequest

/-- A double-precision number. A finite one is `mantissa * 2 ^ exponent` with a sign. -/
inductive Double where
  | nan
  | infinite (negative : Bool)
  | finite (negative : Bool) (mantissa : Nat) (exponent : Int)
deriving DecidableEq, Repr

/-- A binary format: significant bits, and the exponents of the lowest bit of the smallest and of
the largest numbers. -/
structure BinaryFormat where
  precision : Nat
  minExponent : Int
  maxExponent : Int

namespace BinaryFormat

/-- The 64-bit format. -/
def double : BinaryFormat := ⟨53, -1074, 971⟩

/-- The 32-bit format. -/
def single : BinaryFormat := ⟨24, -149, 104⟩

end BinaryFormat

namespace Double

/-! ### Rounding -/

/-- `num / den`, rounded to the nearest integer, a half to the even one. -/
def roundedQuotient (num den : Nat) : Nat :=
  let q := num / den
  let r := num % den
  if 2 * r < den then q
  else if den < 2 * r then q + 1
  else if q % 2 = 0 then q
  else q + 1

/-- `num / den * 2 ^ (-e)` as a fraction. -/
def scaledBy (num den : Nat) (e : Int) : Nat × Nat :=
  if 0 ≤ e then (num, den * Nat.pow 2 e.toNat) else (num * Nat.pow 2 (-e).toNat, den)

/-- The exponent of the lowest bit that a format keeps of `num / den`, by the position of the
highest bit of the fraction. -/
def lowestBit (f : BinaryFormat) (num den : Nat) : Int :=
  let guess : Int := (Nat.log2 num : Int) - (Nat.log2 den : Int)
  let highest : Int :=
    let (n, d) := scaledBy num den guess
    if n < d then guess - 1 else guess
  max f.minExponent (highest - (f.precision - 1 : Nat))

/-- The nearest number of a format to the fraction `num / den`, as mantissa and exponent; `none`
beyond the largest number. -/
def nearest (f : BinaryFormat) (num den : Nat) : Option (Nat × Int) :=
  if num = 0 then some (0, f.minExponent)
  else
    let e := lowestBit f num den
    let (n, d) := scaledBy num den e
    let m := roundedQuotient n d
    let (m, e) := if m = Nat.pow 2 f.precision then (Nat.pow 2 (f.precision - 1), e + 1) else (m, e)
    if f.maxExponent < e then none else some (m, e)

/-- A finite number as a fraction. -/
def fraction (mantissa : Nat) (exponent : Int) : Nat × Nat :=
  if 0 ≤ exponent then (mantissa * Nat.pow 2 exponent.toNat, 1)
  else (mantissa, Nat.pow 2 (-exponent).toNat)

/-- Round to the 32-bit format; the result has the form of the double of the same value. -/
def toSingle : Double → Double
  | .nan => .nan
  | .infinite s => .infinite s
  | .finite s m e =>
    let (num, den) := fraction m e
    let rounded := do
      let (m, e) ← nearest .single num den
      let (num, den) := fraction m e
      nearest .double num den
    match rounded with
    | some (m, e) => .finite s m e
    | none => .infinite s

/-- Is the magnitude at most the largest finite number of the 32-bit format? Infinities and `nan`
have a 32-bit form too. -/
def fitsSingle : Double → Bool
  | .finite _ m e =>
    let (num, den) := fraction m e
    num ≤ (Nat.pow 2 24 - 1) * Nat.pow 2 104 * den
  | _ => true

/-! ### Reading -/

/-- The double nearest to a decimal text; `none` if that is not finite. Exponents that put the
number far beyond the largest or below the smallest double are decided without computing the
power. -/
def ofDecimal? (cs : List Char) : Option Double := do
  let s ← Decimal.shape? cs
  let digits := s.whole ++ s.fraction
  let n := Text.digitsValue digits
  let magnitude := (digits.dropWhile (· == '0')).length
  let written : Int :=
    match s.exponent with
    | none => 0
    | some (negative, ds) =>
      if negative then -(Text.digitsValue ds : Int) else (Text.digitsValue ds : Int)
  let power := written - (s.fraction.length : Int)
  if n = 0 ∨ power + (magnitude : Int) < -330 then
    return .finite s.negative 0 BinaryFormat.double.minExponent
  else if 310 < power + (magnitude : Int) then none
  else
    let (num, den) :=
      if 0 ≤ power then (n * Nat.pow 10 power.toNat, 1) else (n, Nat.pow 10 (-power).toNat)
    let (m, e) ← nearest .double num den
    return .finite s.negative m e

/-- Read a double: `INF`, `-INF`, `NaN` or a decimal text of a finite number. -/
def parse? (cs : List Char) : Option Double :=
  if cs = "INF".toList then some (.infinite false)
  else if cs = "-INF".toList then some (.infinite true)
  else if cs = "NaN".toList then some .nan
  else ofDecimal? cs

/-! ### Writing -/

/-- The fractions half way to the next smaller and the next larger double, over the denominator
`4 * den` of the number itself: `(low, value, high)`. -/
def neighbourhood (mantissa : Nat) (exponent : Int) : Nat × Nat × Nat × Nat :=
  let (num, den) := fraction mantissa exponent
  let unit := num / mantissa
  let closeBelow := mantissa = Nat.pow 2 52 ∧ BinaryFormat.double.minExponent < exponent
  let low := 4 * num - (if closeBelow then unit else 2 * unit)
  (low, 4 * num, 4 * num + 2 * unit, 4 * den)

/-- The multiples of `10 ^ place` on either side of `value / den`, in that unit. -/
def onGrid (value den : Nat) (place : Int) : Nat × Bool :=
  let (n, d) :=
    if 0 ≤ place then (value, den * Nat.pow 10 place.toNat)
    else (value * Nat.pow 10 (-place).toNat, den)
  (n / d, n % d = 0)

/-- Compare `a * 10 ^ place` with `value / den`. -/
def compareGrid (a : Nat) (place : Int) (value den : Nat) : Ordering :=
  if 0 ≤ place then compare (a * Nat.pow 10 place.toNat * den) value
  else compare (a * den) (value * Nat.pow 10 (-place).toNat)

/-- The digits at `place` that read back as the number, if there are any: of the two neighbours on
the grid the one inside the rounding interval, of two the nearer, the upper one on a tie. -/
def digitsAt? (mantissa : Nat) (exponent : Int) (place : Int) : Option Nat :=
  let (low, value, high, den) := neighbourhood mantissa exponent
  let even := mantissa % 2 = 0
  let (below, exact) := onGrid value den place
  if exact then some below
  else
    let above := below + 1
    let belowFits :=
      match compareGrid below place low den with
      | .gt => true
      | .eq => even
      | .lt => false
    let aboveFits :=
      match compareGrid above place high den with
      | .lt => true
      | .eq => even
      | .gt => false
    if belowFits && aboveFits then
      match compareGrid (2 * below + 1) place (2 * value) den with
      | .gt => some below
      | _ => some above
    else if belowFits then some below
    else if aboveFits then some above
    else none

/-- Go down from a place to the first one at which some digits read back. Each step adds a digit;
seventeen of them always suffice. -/
def firstPlace (mantissa : Nat) (exponent : Int) : Nat → Int → Nat × Int
  | 0, place => (((digitsAt? mantissa exponent place).getD 0), place)
  | fuel + 1, place =>
    match digitsAt? mantissa exponent place with
    | some n => if n = 0 then firstPlace mantissa exponent fuel (place - 1) else (n, place)
    | none => firstPlace mantissa exponent fuel (place - 1)

/-- The shortest digits of a number that is not zero, and the place of the last of them. -/
def shortest (mantissa : Nat) (exponent : Int) : Nat × Int :=
  let (num, den) := fraction mantissa exponent
  let bits : Int := (Nat.log2 num : Int) - (Nat.log2 den : Int) + 1
  firstPlace mantissa exponent 24 (bits * 30103 / 100000 + 2)

/-- The positional text of `digits * 10 ^ place`. -/
def positional (digits : Nat) (place : Int) : List Char :=
  if 0 ≤ place then Text.decimalDigits digits ++ List.replicate place.toNat '0'
  else
    let places := (-place).toNat
    let ds := Text.paddedDigits (places + 1) digits
    ds.take (ds.length - places) ++ '.' :: ds.drop (ds.length - places)

/-- The text of a double. -/
def text : Double → String
  | .nan => "NaN"
  | .infinite negative => if negative then "-INF" else "INF"
  | .finite negative mantissa exponent =>
    let sign := if negative then "-" else ""
    if mantissa = 0 then sign ++ "0"
    else
      let (digits, place) := shortest mantissa exponent
      sign ++ String.ofList (positional digits place)

end Double

end ODataRequest
