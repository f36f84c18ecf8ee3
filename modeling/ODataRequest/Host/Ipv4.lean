import ODataRequest.Text.Cut
import ODataRequest.Text.Digits

/-!
# ODataRequest.Host.Ipv4

IPv4 addresses. Up to four numbers are read, each of them decimal, octal or hexadecimal; the last
one fills all the bytes that are left. An address is written as four decimal bytes.
-/

namespace ODataRequest

/-- An IPv4 address. -/
structure Ipv4Address where
  bits : UInt32
deriving DecidableEq, Repr

namespace Ipv4Address

/-- A number: hexadecimal behind `0x`, octal behind any other leading zero, or else decimal. -/
def number? : List Char → Option Nat
  | [] => none
  | ['0'] => some 0
  | '0' :: c :: cs =>
    if c = 'x' ∨ c = 'X' then Text.valueInBase? 16 cs else Text.valueInBase? 8 (c :: cs)
  | cs => Text.valueInBase? 10 cs

/-- The parts of an address between dots; one dot may stand at the end. -/
def parts (cs : List Char) : List (List Char) :=
  let parts := Text.pieces '.' cs
  if parts.getLast? = some [] then parts.dropLast else parts

/-- Can a text be nothing but an address? That is so if its last part is a number or looks like a
decimal one. -/
def isMeant (cs : List Char) : Bool :=
  (parts cs).getLast?.any fun last => Text.isDigits last || (number? last).isSome

/-- The address of some bytes and of a number for the bytes that are left. -/
def ofBytes? (bytes : List Nat) (last : Nat) : Option Ipv4Address :=
  let room := Nat.pow 256 (4 - bytes.length)
  if bytes.length < 4 ∧ bytes.all (· < 256) ∧ last < room then
    some ⟨UInt32.ofNat (bytes.foldl (fun n b => 256 * n + b) 0 * room + last)⟩
  else none

/-- Read an address. -/
def ofText? (cs : List Char) : Option Ipv4Address := do
  let numbers ← (parts cs).mapM number?
  ofBytes? numbers.dropLast (← numbers.getLast?)

/-- A byte of an address, counted from the lowest one. -/
def byte (a : Ipv4Address) (place : Nat) : Nat :=
  a.bits.toNat / Nat.pow 256 place % 256

/-- The text of an address. -/
def text (a : Ipv4Address) : String :=
  ".".intercalate ([3, 2, 1, 0].map fun place => toString (a.byte place))

end Ipv4Address

end ODataRequest
