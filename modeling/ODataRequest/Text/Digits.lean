/-!
# ODataRequest.Text.Digits

Decimal digit strings: their value, their shape, and zero-padded writing. Digits are the ten ASCII
digits. Numbers of other bases are read with the digits of the hexadecimal ones.
-/

namespace ODataRequest.Text

/-- A non-empty string of digits. -/
def isDigits (cs : List Char) : Bool :=
  !cs.isEmpty && cs.all Char.isDigit

/-- The value of a digit string; every character counts as a digit. -/
def digitsValue (cs : List Char) : Nat :=
  Nat.ofDigitChars 10 cs 0

/-- The value of a text that is a non-empty string of digits. -/
def digits? (cs : List Char) : Option Nat :=
  if isDigits cs then some (digitsValue cs) else none

/-- The digits of a number, without leading zeros. -/
def decimalDigits (n : Nat) : List Char :=
  Nat.toDigits 10 n

/-- The digits of a number, filled up with zeros in front to at least `width`. -/
def paddedDigits (width n : Nat) : List Char :=
  let ds := decimalDigits n
  List.replicate (width - ds.length) '0' ++ ds

/-- A text without its trailing zeros. -/
def dropTrailingZeros (cs : List Char) : List Char :=
  (cs.reverse.dropWhile (· == '0')).reverse

/-- The sign in front of a number, `true` for a minus, and what follows it. -/
def signed : List Char → Bool × List Char
  | '-' :: cs => (true, cs)
  | '+' :: cs => (false, cs)
  | cs => (false, cs)

/-- An integer: an optional sign and at least one digit. -/
def integer? (cs : List Char) : Option Int :=
  let (negative, ds) := signed cs
  (digits? ds).map fun n => if negative then -(n : Int) else n

/-- Nine-digit fraction of a second: the digits after the ninth are dropped. -/
def nanoseconds? (fraction : List Char) : Option Nat :=
  if isDigits fraction then
    let kept := fraction.take 9
    some (digitsValue kept * Nat.pow 10 (9 - kept.length))
  else none

/-- The digits of a fraction of a second as they are written: no trailing zeros. -/
def fractionDigits (nanoseconds : Nat) : List Char :=
  dropTrailingZeros (paddedDigits 9 nanoseconds)

/-- A text of exactly two digits. -/
def twoDigits? (cs : List Char) : Option Nat :=
  if cs.length = 2 then digits? cs else none

/-! ### Other bases -/

/-- The value of a hexadecimal digit of either case. -/
def hexValue? (c : Char) : Option Nat :=
  if c.isDigit then some (c.toNat - '0'.toNat)
  else if 'a' ≤ c ∧ c ≤ 'f' then some (c.toNat - 'a'.toNat + 10)
  else if 'A' ≤ c ∧ c ≤ 'F' then some (c.toNat - 'A'.toNat + 10)
  else none

/-- The value of digits of a base up to sixteen; no digits at all are zero. -/
def valueInBase? (base : Nat) (cs : List Char) : Option Nat := do
  let values ← cs.mapM hexValue?
  if values.all (· < base) then some (values.foldl (fun n d => base * n + d) 0) else none

/-! ### Laws -/

theorem digitsValue_decimalDigits (n : Nat) : digitsValue (decimalDigits n) = n :=
  Nat.ofDigitChars_ten_toDigits

end ODataRequest.Text
