import ODataRequest.Model.Type

/-!
# ODataRequest.Expression.Method

The methods that expressions may call: their names, how many arguments they take, and the types of
their results.
-/

namespace ODataRequest

/-- A method. -/
inductive Method where
  | contains
  | startsWith
  | endsWith
  | length
  | indexOf
  | substring
  | toLower
  | toUpper
  | trim
  | concat
  | year
  | month
  | day
  | hour
  | minute
  | second
  | fractionalSeconds
  | totalSeconds
  | date
  | time
  | totalOffsetMinutes
  | minDateTime
  | maxDateTime
  | now
  | round
  | floor
  | ceiling
  | geoDistance
  | geoLength
  | geoIntersects
  | cast
  | isOf
deriving DecidableEq, Repr

namespace Method

/-- All methods. -/
def all : List Method :=
  [.contains, .startsWith, .endsWith, .length, .indexOf, .substring, .toLower, .toUpper, .trim,
    .concat, .year, .month, .day, .hour, .minute, .second, .fractionalSeconds, .totalSeconds, .date,
    .time, .totalOffsetMinutes, .minDateTime, .maxDateTime, .now, .round, .floor, .ceiling,
    .geoDistance, .geoLength, .geoIntersects, .cast, .isOf]

/-- The name of a method. -/
def name : Method → String
  | .contains => "contains"
  | .startsWith => "startswith"
  | .endsWith => "endswith"
  | .length => "length"
  | .indexOf => "indexof"
  | .substring => "substring"
  | .toLower => "tolower"
  | .toUpper => "toupper"
  | .trim => "trim"
  | .concat => "concat"
  | .year => "year"
  | .month => "month"
  | .day => "day"
  | .hour => "hour"
  | .minute => "minute"
  | .second => "second"
  | .fractionalSeconds => "fractionalseconds"
  | .totalSeconds => "totalseconds"
  | .date => "date"
  | .time => "time"
  | .totalOffsetMinutes => "totaloffsetminutes"
  | .minDateTime => "mindatetime"
  | .maxDateTime => "maxdatetime"
  | .now => "now"
  | .round => "round"
  | .floor => "floor"
  | .ceiling => "ceiling"
  | .geoDistance => "geo.distance"
  | .geoLength => "geo.length"
  | .geoIntersects => "geo.intersects"
  | .cast => "cast"
  | .isOf => "isof"

/-- The method of a name. -/
def ofName? (name : String) : Option Method :=
  all.find? (·.name == name)

/-- Every method is found by its name. -/
theorem ofName?_name (m : Method) : ofName? m.name = some m := by
  cases m <;> decide +kernel

/-- The least and the greatest number of arguments. -/
def arity : Method → Nat × Nat
  | .minDateTime | .maxDateTime | .now => (0, 0)
  | .contains | .startsWith | .endsWith | .indexOf | .concat | .geoDistance
  | .geoIntersects => (2, 2)
  | .substring => (2, 3)
  | .cast | .isOf => (1, 2)
  | .length | .toLower | .toUpper | .trim | .year | .month | .day | .hour | .minute | .second
  | .fractionalSeconds | .totalSeconds | .date | .time | .totalOffsetMinutes | .round | .floor
  | .ceiling | .geoLength => (1, 1)

/-- Is the number of arguments one that the method takes? -/
def takes (m : Method) (count : Nat) : Bool :=
  m.arity.1 ≤ count && count ≤ m.arity.2

/-- Methods whose last argument may be the name of a type. -/
def takesType : Method → Bool
  | .cast | .isOf => true
  | _ => false

/-- The type of the result: rounding keeps the type of its argument, a cast has the type it names,
all others have a type of their own. -/
def resultType (m : Method) (firstArgument namedType : Option ModelType) : Option ModelType :=
  match m with
  | .contains | .startsWith | .endsWith | .geoIntersects | .isOf => some (.primitive .boolean)
  | .length | .indexOf | .year | .month | .day | .hour | .minute | .second | .totalOffsetMinutes =>
    some (.primitive (.integer .int32))
  | .substring | .toLower | .toUpper | .trim | .concat => some (.primitive .string)
  | .fractionalSeconds | .totalSeconds => some (.primitive .decimal)
  | .date => some (.primitive .date)
  | .time => some (.primitive .timeOfDay)
  | .minDateTime | .maxDateTime | .now => some (.primitive .dateTimeOffset)
  | .geoDistance | .geoLength => some (.primitive .double)
  | .round | .floor | .ceiling => firstArgument
  | .cast => namedType

end Method

end ODataRequest
