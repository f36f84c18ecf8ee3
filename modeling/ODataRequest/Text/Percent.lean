import ODataRequest.Text.Digits

/-!
# ODataRequest.Text.Percent

Percent encoding of path segments. Reading replaces each `%XX` by the byte it stands for and takes
the resulting bytes as UTF-8; writing replaces the UTF-8 bytes of every character that may not
stand in a segment.
-/

namespace ODataRequest.Text

/-! ### Reading -/

/-- The bytes a text stands for; `none` if a `%` is not followed by two hexadecimal digits. -/
def unescape : List Char → Option (List UInt8)
  | [] => some []
  | '%' :: high :: low :: cs => do
    let h ← hexValue? high
    let l ← hexValue? low
    let rest ← unescape cs
    return UInt8.ofNat (16 * h + l) :: rest
  | '%' :: _ => none
  | c :: cs => (unescape cs).map (String.utf8EncodeChar c ++ ·)

/-- The text that a percent-encoded text stands for; `none` if it is malformed or not UTF-8. -/
def percentDecode? (s : String) : Option String := do
  let bytes ← unescape s.toList
  String.fromUTF8? ⟨bytes.toArray⟩

/-! ### Writing -/

/-- ASCII characters that stand for themselves in a path segment. -/
def standsInSegment (c : Char) : Bool :=
  0x20 < c.toNat && c.toNat < 0x7F &&
    !(['"', '#', '%', '/', '<', '>', '?', '[', '\\', ']', '^', '\x60', '\x7b', '|',
      '\x7d'].contains c)

/-- The hexadecimal digit of a number below sixteen, in upper case. -/
def hexDigit (n : Nat) : Char :=
  Char.ofNat (if n < 10 then '0'.toNat + n else 'A'.toNat + (n - 10))

/-- `%XX`. -/
def escapeByte (b : UInt8) : List Char :=
  ['%', hexDigit (b.toNat / 16), hexDigit (b.toNat % 16)]

/-- A character as it is written in a path segment. -/
def escapeChar (c : Char) : List Char :=
  if standsInSegment c then [c] else (String.utf8EncodeChar c).flatMap escapeByte

/-- A text as it is written in a path segment. -/
def percentEncode (s : String) : String :=
  String.ofList (s.toList.flatMap escapeChar)

end ODataRequest.Text
