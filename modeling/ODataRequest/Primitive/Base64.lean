/-!
# ODataRequest.Primitive.Base64

Base64 text of binary values, in the ordinary or the URL-safe alphabet, with at most two padding
characters. The text is kept as it is written; nothing is decoded.
-/

namespace ODataRequest

/-- A character of one of the two alphabets. -/
def isBase64Char (c : Char) : Bool :=
  c.isAlphanum || c == '-' || c == '_' || c == '+' || c == '/'

/-- The form of a base64 text: up to two `=` at its end, and letters of the alphabets in front. -/
def isBase64 (cs : List Char) : Bool :=
  let reversed := cs.reverse
  (reversed.takeWhile (· == '=')).length ≤ 2 &&
    (reversed.dropWhile (· == '=')).all isBase64Char

/-- A base64 text. -/
structure Base64 where
  chars : List Char
  wellFormed : isBase64 chars = true

namespace Base64

/-- Read a base64 text. -/
def parse? (cs : List Char) : Option Base64 :=
  if h : isBase64 cs = true then some ⟨cs, h⟩ else none

end Base64

end ODataRequest
