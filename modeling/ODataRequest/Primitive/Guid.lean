import ODataRequest.Text.Digits

/-!
# ODataRequest.Primitive.Guid

Globally unique identifiers in their hyphenated form: 32 hexadecimal digits in groups of 8, 4, 4,
4 and 12. Either case is read; lower case is stored and written.
-/

namespace ODataRequest

/-- Is the character at a place of the hyphenated form admissible there? -/
def isGuidChar (place : Nat) (c : Char) : Bool :=
  if place = 8 ∨ place = 13 ∨ place = 18 ∨ place = 23 then c == '-'
  else (Text.hexValue? c).isSome

/-- The hyphenated form of a GUID. -/
def isGuidText (cs : List Char) : Bool :=
  cs.length == 36 && cs.zipIdx.all fun p => isGuidChar p.2 p.1

/-- A GUID, as its text in lower case. -/
structure Guid where
  chars : List Char
  wellFormed : isGuidText chars = true
  lower : chars.map Char.toLower = chars

namespace Guid

/-- Read the hyphenated form. -/
def parse? (cs : List Char) : Option Guid :=
  let ls := cs.map Char.toLower
  if h : isGuidText ls = true ∧ ls.map Char.toLower = ls then some ⟨ls, h.1, h.2⟩ else none

/-- The text of a GUID. -/
def text (g : Guid) : String :=
  String.ofList g.chars

end Guid

end ODataRequest
