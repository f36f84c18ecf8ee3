import ODataRequest.Model.Type
import ODataRequest.Request.Error

/-!
# ODataRequest.Expression.Operator

Operators of expressions: their names, how tight they bind, and the types they take and give. An
operand whose type is not known, such as `null` or a parameter alias, fits any operator.
-/

namespace ODataRequest

/-- The type of truth values. -/
def booleanType : ModelType :=
  .primitive .boolean

/-! ### Operators -/

/-- An operator with two operands. -/
inductive BinaryOperator where
  | has
  | mul
  | div
  | divby
  | mod
  | add
  | sub
  | gt
  | ge
  | lt
  | le
  | eq
  | ne
  | and
  | or
  | isIn
deriving DecidableEq, Repr

/-- An operator in front of its operand. -/
inductive UnaryOperator where
  | minus
  | not
deriving DecidableEq, Repr

namespace BinaryOperator

/-- All operators with two operands. -/
def all : List BinaryOperator :=
  [.has, .mul, .div, .divby, .mod, .add, .sub, .gt, .ge, .lt, .le, .eq, .ne, .and, .or, .isIn]

/-- The word for an operator. -/
def name : BinaryOperator → String
  | .has => "has"
  | .mul => "mul"
  | .div => "div"
  | .divby => "divby"
  | .mod => "mod"
  | .add => "add"
  | .sub => "sub"
  | .gt => "gt"
  | .ge => "ge"
  | .lt => "lt"
  | .le => "le"
  | .eq => "eq"
  | .ne => "ne"
  | .and => "and"
  | .or => "or"
  | .isIn => "in"

/-- The operator of a word. -/
def ofName? (name : String) : Option BinaryOperator :=
  all.find? (·.name == name)

/-- How tight an operator binds; `in` binds like a comparison of order. -/
def precedence : BinaryOperator → Nat
  | .or => 1
  | .and => 2
  | .eq | .ne => 3
  | .gt | .ge | .lt | .le | .isIn => 4
  | .add | .sub => 5
  | .mul | .div | .divby | .mod => 6
  | .has => 7

/-- Every operator is found by its name. -/
theorem ofName?_name (op : BinaryOperator) : ofName? op.name = some op := by
  cases op <;> decide +kernel

end BinaryOperator

/-- The sign or word for an operator. -/
def UnaryOperator.name : UnaryOperator → String
  | .minus => "-"
  | .not => "not"

/-! ### Types of operands -/

/-- The type that two numbers are brought to. Two integer types neither of which holds the other
are brought to `Int16`. -/
def promoted (left right : PrimitiveKind) : PrimitiveKind :=
  if left.accepts right then left
  else if right.accepts left then right
  else if left.isInteger && right.isInteger then .integer .int16
  else .double

/-- May two values of these types be compared? -/
def comparable (left right : ModelType) : Bool :=
  (left.isEnumeration && right.primitive? == some .string) ||
  (right.isEnumeration && left.primitive? == some .string) ||
  match left.primitive?, right.primitive? with
  | some l, some r => (l.isNumeric && r.isNumeric) || l.accepts r || r.accepts l
  | _, _ => left.isCompatibleWith right || right.isCompatibleWith left

/-- The result of arithmetic on two primitive types. Numbers are promoted, with `divby` at least to
`Decimal`; durations may be added to dates and to each other; the difference of two dates is a
duration. -/
def arithmeticKind (op : BinaryOperator) (left right : PrimitiveKind) : Option PrimitiveKind :=
  if left.isNumeric && right.isNumeric then
    let kind := promoted left right
    some (if op = .divby then promoted kind .decimal else kind)
  else
    match left, right with
    | .date, .duration | .dateTimeOffset, .duration | .duration, .duration =>
      if op = .add ∨ op = .sub then some left else none
    | .date, .date | .dateTimeOffset, .dateTimeOffset =>
      if op = .sub then some .duration else none
    | _, _ => none

/-- The name of a type, or `null` for an unknown one. -/
def typeText (t : Option ModelType) : String :=
  (t.map ModelType.text).getD "null"

namespace BinaryOperator

/-- The type of arithmetic on operands of these types; the inner option is for a type that stays
unknown, the outer one for operands that do not fit. -/
def arithmeticType? (op : BinaryOperator) (left right : Option ModelType) :
    Option (Option ModelType) :=
  match left, right with
  | some l, some r => do
    let kind ← arithmeticKind op (← l.primitive?) (← r.primitive?)
    return some (.primitive kind)
  | some known, none | none, some known =>
    if known.primitive?.isSome then some (some known) else none
  | none, none => some none

/-- Do the operands of `has` fit? -/
def hasFits (left right : Option ModelType) : Bool :=
  match left, right with
  | some (.enumeration l), some (.enumeration r) => l.name == r.name
  | some l, _ => l.isEnumeration
  | none, _ => true

/-- The type of an operator on operands of these types, unless they do not fit. -/
def fittingType? (op : BinaryOperator) (left right : Option ModelType) :
    Option (Option ModelType) :=
  match op with
  | .and | .or =>
    if left.all ModelType.isBoolean && right.all ModelType.isBoolean then some (some booleanType)
    else none
  | .eq | .ne | .gt | .ge | .lt | .le =>
    match left, right with
    | some l, some r => if comparable l r then some (some booleanType) else none
    | _, _ => some (some booleanType)
  | .has => if hasFits left right then some (some booleanType) else none
  | .isIn => some (some booleanType)
  | .add | .sub | .mul | .div | .divby | .mod => op.arithmeticType? left right

/-- The type of an operator on operands of these types. -/
def resultType (op : BinaryOperator) (left right : Option ModelType) :
    Except SemanticError (Option ModelType) :=
  match op.fittingType? left right with
  | some type => .ok type
  | none => .error (.typeMismatch op.name [typeText left, typeText right])

end BinaryOperator

namespace UnaryOperator

/-- Does an operand of a known type fit? -/
def fits (op : UnaryOperator) (operand : ModelType) : Bool :=
  match op with
  | .not => operand.isBoolean
  | .minus => operand.primitive?.any fun k => k.isNumeric || k == .duration

/-- The type of an operator on an operand of this type. -/
def resultType (op : UnaryOperator) (operand : Option ModelType) :
    Except SemanticError (Option ModelType) :=
  match op, operand with
  | .not, none => .ok (some booleanType)
  | .minus, none => .ok none
  | op, some type =>
    if op.fits type then .ok (some type) else .error (.typeMismatch op.name [type.text])

end UnaryOperator

end ODataRequest
