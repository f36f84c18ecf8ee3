import ODataRequest.Calendar.DateTimeOffset
import ODataRequest.Calendar.Duration
import ODataRequest.Number.Double
import ODataRequest.Primitive.Base64
import ODataRequest.Primitive.Guid
import ODataRequest.Primitive.Kind
import ODataRequest.Text.Quoted

/-!
# ODataRequest.Primitive.Value

Values of primitive types and their literals in URLs.

* `PrimitiveValue.read?` reads a literal of a known type.
* `PrimitiveKind.validate` does the same, accepts `null` for every type, and reports a literal that
  does not fit.
* `PrimitiveValue.infer?` reads a literal whose type is not known: integers get the smallest type
  that holds them, numbers with a fraction are `Decimal`, numbers with an exponent `Double`.
* `PrimitiveValue.literal` writes a value.
-/

namespace ODataRequest

/-- An integer in the range of its type. -/
structure BoundedInteger (kind : IntegerKind) where
  value : Int
  low_le : kind.low ≤ value
  le_high : value ≤ kind.high

/-- An integer, if it is in the range of the type. -/
def BoundedInteger.ofInt? (kind : IntegerKind) (n : Int) : Option (BoundedInteger kind) :=
  if h : kind.low ≤ n ∧ n ≤ kind.high then some ⟨n, h.1, h.2⟩ else none

/-- A value of a primitive type. A `single` is the double of the same value. -/
inductive PrimitiveValue where
  | null
  | binary (text : Base64)
  | boolean (value : Bool)
  | integer (kind : IntegerKind) (value : BoundedInteger kind)
  | decimal (value : Decimal)
  | single (value : Double)
  | double (value : Double)
  | date (value : Date)
  | dateTimeOffset (value : DateTimeOffset)
  | timeOfDay (value : TimeOfDay)
  | duration (value : Duration)
  | guid (value : Guid)
  | string (value : String)

/-- A literal that is not one of its type. -/
structure LiteralError where
  kind : PrimitiveKind
  literal : String
deriving DecidableEq, Repr

/-- The wording of a literal error. -/
def LiteralError.message (e : LiteralError) : String :=
  "'" ++ e.literal ++ "' is not a valid " ++ e.kind.text ++ " literal"

namespace PrimitiveValue

/-- The type of a value; `null` has none. -/
def kind? : PrimitiveValue → Option PrimitiveKind
  | .null => none
  | .binary _ => some .binary
  | .boolean _ => some .boolean
  | .integer k _ => some (.integer k)
  | .decimal _ => some .decimal
  | .single _ => some .single
  | .double _ => some .double
  | .date _ => some .date
  | .dateTimeOffset _ => some .dateTimeOffset
  | .timeOfDay _ => some .timeOfDay
  | .duration _ => some .duration
  | .guid _ => some .guid
  | .string _ => some .string

/-- Is it `null`? -/
def isNull : PrimitiveValue → Bool
  | .null => true
  | _ => false

/-! ### Writing -/

/-- The literal of a value. -/
def literal : PrimitiveValue → String
  | .null => "null"
  | .binary b => "binary'" ++ String.ofList b.chars ++ "'"
  | .boolean b => if b then "true" else "false"
  | .integer _ n => toString n.value
  | .decimal d => d.text
  | .single d => d.text
  | .double d => d.text
  | .date d => d.text
  | .dateTimeOffset d => d.text
  | .timeOfDay t => t.text
  | .duration d => "duration'" ++ d.text ++ "'"
  | .guid g => g.text
  | .string s => String.ofList (Text.quote s.toList)

/-! ### Reading a known type -/

/-- `true` or `false` in any case. -/
def boolean? (cs : List Char) : Option Bool :=
  if Text.equalIgnoringCase cs "true".toList then some true
  else if Text.equalIgnoringCase cs "false".toList then some false
  else none

/-- The text between the quotes of `word'text'`, the case of the word aside; any other text is
returned as it is. -/
def stripQuotes (word cs : List Char) : List Char :=
  if Text.startsIgnoringCase word cs then
    match cs.drop word.length with
    | '\'' :: rest => (Text.before? ['\''] rest).getD cs
    | _ => cs
  else cs

/-- An integer literal of a type. -/
def integer? (kind : IntegerKind) (cs : List Char) : Option PrimitiveValue := do
  let n ← Text.integer? cs
  (BoundedInteger.ofInt? kind n).map (.integer kind)

/-- Read a literal of a known type that is not `null`. -/
def read? (kind : PrimitiveKind) (cs : List Char) : Option PrimitiveValue :=
  match kind with
  | .boolean => (boolean? cs).map .boolean
  | .integer k => integer? k cs
  | .decimal => (Decimal.parse? cs).map .decimal
  | .double => (Double.parse? cs).map .double
  | .single => ((Double.parse? cs).filter Double.fitsSingle).map fun d => .single d.toSingle
  | .string => (Text.unquote? cs).map fun s => .string (String.ofList s)
  | .date => (Date.parse? cs).map .date
  | .dateTimeOffset => (DateTimeOffset.parse? cs).map .dateTimeOffset
  | .timeOfDay => (TimeOfDay.parse? cs).map .timeOfDay
  | .duration => (Duration.parse? (stripQuotes "duration".toList cs)).map .duration
  | .guid => (Guid.parse? cs).map .guid
  | .binary =>
    let word := if Text.startsIgnoringCase "binary'".toList cs then "binary" else "X"
    (Base64.parse? (stripQuotes word.toList cs)).map .binary
  | .stream => none

/-! ### Reading an unknown type -/

/-- A number literal: an integer in the first of the integer types that holds it; otherwise a
`Double` if it has an exponent or names one, and a `Decimal` if not. -/
def inferNumber? (cs : List Char) : Option PrimitiveValue :=
  let asInteger := [.sbyte, .byte, .int16, .int32, .int64].findSome? fun k => integer? k cs
  asInteger.or <|
    if cs.contains 'e' || cs.contains 'E' || cs == "INF".toList || cs == "-INF".toList ||
        cs == "NaN".toList then
      read? .double cs
    else read? .decimal cs

/-- Read a literal whose type is not known. -/
def infer? (cs : List Char) : Option PrimitiveValue :=
  if cs = "null".toList then some .null
  else
    match boolean? cs with
    | some b => some (.boolean b)
    | none =>
      if cs.head? = some '\'' then read? .string cs
      else if Text.startsIgnoringCase "duration'".toList cs then read? .duration cs
      else if Text.startsIgnoringCase "binary'".toList cs then read? .binary cs
      else
        ([.guid, .dateTimeOffset, .date, .timeOfDay].findSome? fun k => read? k cs).or
          (inferNumber? cs)

end PrimitiveValue

/-- Read a literal of a known type; `null` is a literal of every type. -/
def PrimitiveKind.validate (kind : PrimitiveKind) (literal : String) :
    Except LiteralError PrimitiveValue :=
  if literal = "null" then .ok .null
  else
    match PrimitiveValue.read? kind literal.toList with
    | some v => .ok v
    | none => .error ⟨kind, literal⟩

/-- The primitive type of a qualified name given as text. A text that names none is reported like a
literal that is no text. -/
def PrimitiveKind.parse (text : String) : Except LiteralError PrimitiveKind :=
  match PrimitiveKind.ofText? text with
  | some kind => .ok kind
  | none => .error ⟨.string, text⟩

end ODataRequest
