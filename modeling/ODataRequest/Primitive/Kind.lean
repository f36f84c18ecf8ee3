import ODataRequest.Name

/-!
# ODataRequest.Primitive.Kind

The primitive types of the reserved namespace `Edm`, and numeric promotion between them.
-/

namespace ODataRequest

/-- Integer types by their range. -/
inductive IntegerKind where
  | byte | sbyte | int16 | int32 | int64
deriving DecidableEq, Repr

/-- The smallest value of an integer type. -/
def IntegerKind.low : IntegerKind → Int
  | .byte => 0
  | .sbyte => -128
  | .int16 => -32768
  | .int32 => -2147483648
  | .int64 => -9223372036854775808

/-- The largest value of an integer type. -/
def IntegerKind.high : IntegerKind → Int
  | .byte => 255
  | .sbyte => 127
  | .int16 => 32767
  | .int32 => 2147483647
  | .int64 => 9223372036854775807

/-- A primitive type. -/
inductive PrimitiveKind where
  | binary
  | boolean
  | date
  | dateTimeOffset
  | decimal
  | double
  | single
  | duration
  | guid
  | integer (kind : IntegerKind)
  | string
  | timeOfDay
  | stream
deriving DecidableEq, Repr

namespace PrimitiveKind

/-- All primitive types in their usual order. -/
def all : List PrimitiveKind :=
  [.binary, .boolean, .integer .byte, .integer .sbyte, .date, .dateTimeOffset, .decimal, .double,
    .single, .duration, .guid, .integer .int16, .integer .int32, .integer .int64, .string,
    .timeOfDay, .stream]

/-- The name inside the reserved namespace. -/
def name : PrimitiveKind → String
  | .binary => "Binary"
  | .boolean => "Boolean"
  | .date => "Date"
  | .dateTimeOffset => "DateTimeOffset"
  | .decimal => "Decimal"
  | .double => "Double"
  | .single => "Single"
  | .duration => "Duration"
  | .guid => "Guid"
  | .integer .byte => "Byte"
  | .integer .sbyte => "SByte"
  | .integer .int16 => "Int16"
  | .integer .int32 => "Int32"
  | .integer .int64 => "Int64"
  | .string => "String"
  | .timeOfDay => "TimeOfDay"
  | .stream => "Stream"

/-- The qualified name, such as `Edm.Int16`, as text. -/
def text (k : PrimitiveKind) : String :=
  "Edm." ++ k.name

theorem isIdentifier_edm : isIdentifier "Edm".toList = true := by decide +kernel

theorem isIdentifier_name (k : PrimitiveKind) : isIdentifier k.name.toList = true := by
  match k with
  | .binary | .boolean | .date | .dateTimeOffset | .decimal | .double | .single | .duration
  | .guid | .integer .byte | .integer .sbyte | .integer .int16 | .integer .int32
  | .integer .int64 | .string | .timeOfDay | .stream => decide +kernel

/-- The qualified name. -/
def qualifiedName (k : PrimitiveKind) : QualifiedName :=
  ⟨⟨⟨"Edm", isIdentifier_edm⟩, []⟩, ⟨k.name, isIdentifier_name k⟩⟩

/-- The primitive type of a name of the reserved namespace. -/
def ofName? (q : QualifiedName) : Option PrimitiveKind :=
  if q.isEdm then all.find? fun k => k.name == q.name.text else none

/-- The primitive type of a qualified name given as text. -/
def ofText? (s : String) : Option PrimitiveKind :=
  all.find? fun k => k.text == s

/-- The integer types. -/
def isInteger : PrimitiveKind → Bool
  | .integer _ => true
  | _ => false

/-- The types that arithmetic promotes between. -/
def isNumeric : PrimitiveKind → Bool
  | .integer _ | .decimal | .single | .double => true
  | _ => false

/-- The types whose values may also stand where the given type is expected, besides the type
itself. -/
def promotesFrom : PrimitiveKind → List PrimitiveKind
  | .integer .int16 => [.integer .byte, .integer .sbyte]
  | .integer .int32 => [.integer .byte, .integer .sbyte, .integer .int16]
  | .integer .int64 => [.integer .byte, .integer .sbyte, .integer .int16, .integer .int32]
  | .decimal =>
    [.integer .byte, .integer .sbyte, .integer .int16, .integer .int32, .integer .int64]
  | .single =>
    [.integer .byte, .integer .sbyte, .integer .int16, .integer .int32, .integer .int64, .decimal]
  | .double =>
    [.integer .byte, .integer .sbyte, .integer .int16, .integer .int32, .integer .int64, .decimal,
      .single]
  | _ => []

/-- May a value of kind `source` stand where `target` is expected? -/
def accepts (target source : PrimitiveKind) : Bool :=
  target == source || (promotesFrom target).contains source

end PrimitiveKind

end ODataRequest
