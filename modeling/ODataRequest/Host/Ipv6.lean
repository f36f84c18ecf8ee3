import ODataRequest.Text.Cut
import ODataRequest.Text.Digits

/-!
# ODataRequest.Host.Ipv6

IPv6 addresses: eight groups of 16 bits in hexadecimal. Two colons in a row stand for one or more
groups of zero, once in an address, and the last two groups may be written as an IPv4 address. An
address is written with two colons for the first of its longest runs of at least two zero groups.
-/

namespace ODataRequest

/-- An IPv6 address. -/
structure Ipv6Address where
  groups : List UInt16
  length_eq : groups.length = 8
deriving DecidableEq, Repr

namespace Ipv6Address

/-! ### Reading -/

/-- A group of one to four digits. -/
def group? (cs : List Char) : Option UInt16 :=
  if cs.isEmpty || 4 < cs.length then none else (Text.valueInBase? 16 cs).map UInt16.ofNat

/-- A decimal byte without leading zeros. -/
def byte? : List Char → Option Nat
  | '0' :: _ :: _ => none
  | cs => (Text.digits? cs).filter (· < 256)

/-- Two groups that are written as four bytes. -/
def dotted? (cs : List Char) : Option (List UInt16) := do
  match ← (Text.pieces '.' cs).mapM byte? with
  | [a, b, c, d] => return [UInt16.ofNat (256 * a + b), UInt16.ofNat (256 * c + d)]
  | _ => none

/-- The groups up to the end of an address. -/
def groups? : List (List Char) → Option (List UInt16)
  | [] => some []
  | [last] => if last.contains '.' then dotted? last else (group? last).map ([·])
  | piece :: rest => do return (← group? piece) :: (← groups? rest)

/-- The parts before and after the first two colons in a row. -/
def cutAtGap? : List Char → Option (List Char × List Char)
  | [] => none
  | ':' :: ':' :: cs => some ([], cs)
  | c :: cs => (cutAtGap? cs).map fun parts => (c :: parts.1, parts.2)

/-- The pieces between colons on one side of a gap, where there may be none. -/
def sidePieces (cs : List Char) : List (List Char) :=
  if cs.isEmpty then [] else Text.pieces ':' cs

/-- The groups of an address, those of a gap being zero. -/
def allGroups? (cs : List Char) : Option (List UInt16) :=
  match cutAtGap? cs with
  | none => groups? (Text.pieces ':' cs)
  | some (left, right) => do
    let left ← (sidePieces left).mapM group?
    let right ← groups? (sidePieces right)
    guard (left.length + right.length < 8)
    return left ++ List.replicate (8 - (left.length + right.length)) 0 ++ right

/-- Read an address. -/
def ofText? (cs : List Char) : Option Ipv6Address := do
  let groups ← allGroups? cs
  if h : groups.length = 8 then some ⟨groups, h⟩ else none

/-! ### Writing -/

/-- The number of zero groups in a row from a place on. -/
def zerosAt (a : Ipv6Address) (place : Nat) : Nat :=
  ((a.groups.drop place).takeWhile (· == 0)).length

/-- The place of the first of the longest runs of zero groups. -/
def longestZeros (a : Ipv6Address) : Nat :=
  let longer := fun best place => if a.zerosAt best < a.zerosAt place then place else best
  (List.range 8).foldl longer 0

/-- The text of groups with colons between them. -/
def groupsText (groups : List UInt16) : String :=
  ":".intercalate (groups.map fun g => String.ofList (Nat.toDigits 16 g.toNat))

/-- The text of an address. -/
def text (a : Ipv6Address) : String :=
  let place := a.longestZeros
  let count := a.zerosAt place
  if count < 2 then groupsText a.groups
  else groupsText (a.groups.take place) ++ "::" ++ groupsText (a.groups.drop (place + count))

end Ipv6Address

end ODataRequest
