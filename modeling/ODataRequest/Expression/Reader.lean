import ODataRequest.Config
import ODataRequest.Expression.Text
import ODataRequest.Path.Resource

/-!
# ODataRequest.Expression.Reader

Reading expressions. Operators between operands are words with blank space in front of them; they
are grouped by how tight they bind, and to the left where they bind alike. A sign and `not` bind
tighter than all of them. Paths are resolved while they are read, so every expression has a type as
far as the model gives one, and operands that do not fit their operator are refused.

Every operand inside parentheses, behind a sign, or to the right of an operator is one level deeper
than what is around it. The recursion follows the levels that are left (`expressionWithin`); what
is read on one level gets the reader of the next one as `nested`.
-/

namespace ODataRequest

/-- What the names in an expression stand for. -/
structure Scope where
  aliases : AliasTable
  /-- The entity sets of a cross join. -/
  joined : List String
  /-- The type of the value that the expression is evaluated on. -/
  it : Option ModelType
  /-- The variables of the enclosing quantifiers with their types, the innermost first. -/
  bound : List (String × ModelType)

namespace Scope

/-- The scope inside a quantifier. -/
def bind (s : Scope) (name : String) (type : ModelType) : Scope :=
  { s with bound := (name, type) :: s.bound }

/-- The type of a variable. -/
def boundType? (s : Scope) (name : String) : Option ModelType :=
  s.bound.lookup name

end Scope

/-- A reader of operands: it takes a scope and how tight an operator has to bind to belong to the
operand. -/
abbrev OperandReader :=
  Scope → Nat → TokenReader Expression

/-! ### Units without parts -/

/-- A literal with the type it shows. -/
def literalExpression (text : String) : Expression :=
  .literal text (((PrimitiveValue.infer? text.toList).bind PrimitiveValue.kind?).map .primitive)

/-- A literal of an enumeration, `Name'member,member'`. -/
def enumerationLiteral (text : String) : Resolution Expression := do
  match Text.cutAt? '\'' text.toList with
  | none => Resolution.refuse (.malformed text)
  | some (name, quoted) =>
    let name := String.ofList name
    let type ← Resolution.require (.unknownType name)
      (← Resolution.answerTo (.enumType (← requireName name)))
    let members := (quoted.reverse.dropWhile (· == '\'')).reverse
    let members ← (Text.pieces ',' members).mapM fun member => do
      let member := String.ofList member
      let _ ← Resolution.require (.unknownPart member) (type.member? member)
      return member
    return .enumeration type members

/-! ### Paths -/

/-- A condition has to be a truth value if its type is known. -/
def requireCondition (place : String) (e : Expression) : Resolution Unit :=
  match e.type? with
  | some type =>
    if type.isBoolean then return () else Resolution.reject (.typeMismatch place [type.text])
  | none => return ()

/-- Where a path in an expression has got to. -/
structure MemberPosition extends Position where
  /-- Does the path start with an entity set of a cross join? -/
  fromJoin : Bool

namespace MemberPosition

/-- In front of all steps. -/
def origin : MemberPosition :=
  ⟨Position.origin, false⟩

/-- Is nothing read yet, not even a cast? -/
def atStart (p : MemberPosition) : Bool :=
  p.steps.isEmpty && p.start.isNone

/-- The type of what has been reached. -/
def type? (p : MemberPosition) (scope : Scope) : Option ModelType :=
  match p.steps with
  | last :: _ => last.type?
  | [] => p.start.or scope.it

/-- Has a collection been reached? Directly behind an entity set of a cross join stands one of its
entities. -/
def isCollection (p : MemberPosition) : Bool :=
  match p.steps with
  | [] => false
  | [only] => only.isCollection && !p.fromJoin
  | last :: _ => last.isCollection

/-- Go one step further. -/
def push (p : MemberPosition) (r : Resource) : MemberPosition :=
  { p with steps := r :: p.steps }

end MemberPosition

/-- The entity set or singleton behind `$root/`. -/
def rootResource (aliases : AliasTable) : TokenReader Resource := do
  let _ ← TokenReader.expect .slash
  let name := (← TokenReader.expect .identifier).text
  let container ← requireContainer
  if let some set := container.entitySet? name then
    entitySetResource aliases set
  else
    let single ← Resolution.require (.resourceNotFound name) (container.singleton? name)
    singletonResource single

/-- An entity set of a cross join. -/
def joinedResource (aliases : AliasTable) (name : String) : TokenReader Resource := do
  let container ← requireContainer
  let set ← Resolution.require (.resourceNotFound name) (container.entitySet? name)
  entitySetResource aliases set

/-- A quantifier over a collection with members of type `owner`. -/
def quantified (scope : Scope) (nested : OperandReader) (quantifier : Quantifier)
    (owner : Option ModelType) : TokenReader Resource := do
  let _ ← TokenReader.expect .openParen
  if quantifier = .any then
    if ← TokenReader.skips .closeParen then
      return .notEmpty
  let name := (← TokenReader.expect .identifier).text
  if isQualified name then Resolution.refuse (.malformed name)
  let _ ← TokenReader.expect .colon
  let type ← Resolution.require (.onlyForTypedParts quantifier.name) owner
  let body ← nested (scope.bind name type) 0
  requireCondition quantifier.name body
  let _ ← TokenReader.expect .closeParen
  return .lambda quantifier name body

/-- Narrow what a path has reached. -/
def castMember (scope : Scope) (p : MemberPosition) (name : String) (type : ModelType) :
    Resolution MemberPosition := do
  match p.steps with
  | last :: earlier =>
    return { p with steps := (← Resolution.ofSemantic (last.cast type)) :: earlier }
  | [] =>
    let owner ← Resolution.require (.onlyForTypedParts name) (p.type? scope)
    return { p with toPosition := ← Resolution.ofSemantic (p.castStart owner type name) }

/-- A bound function behind what a path has reached. -/
def memberFunction (scope : Scope) (p : MemberPosition) (text : String) (name : QualifiedName) :
    TokenReader Resource := do
  if !(← TokenReader.sees .openParen) then
    Resolution.reject (.unknownType text)
  let owner ← Resolution.require (.onlyForTypedParts text) (p.type? scope)
  let raw ← rawArguments
  let f ← Resolution.require (.functionNotFound text)
    (← Resolution.answerTo (.boundFunction name ⟨owner.name, p.isCollection⟩ (raw.map (·.1))))
  let arguments ← argumentsOf f raw
  let returnType ← requireType f.returnType.type.name
  return .function f none arguments returnType [] Casts.none

/-- A cast or a bound function. -/
def qualifiedMember (scope : Scope) (p : MemberPosition) (text : String) :
    TokenReader MemberPosition := do
  let name ← requireName text
  match ← Resolution.answerTo (.type name) with
  | some type => castMember scope p text type
  | none => return p.push (← memberFunction scope p text name)

/-- A property of what a path has reached. -/
def propertyMember (scope : Scope) (p : MemberPosition) (name : String) : Resolution Resource := do
  let type ← Resolution.require (.onlyForTypedParts name) (p.type? scope)
  let notInType := SemanticError.expressionPropertyNotInType type.text name
  let owner ← Resolution.require notInType type.structured?
  if p.isCollection then
    Resolution.reject (.propertyAfterCollection type.text name)
  Resolution.require notInType (← propertyResource owner name)

/-- The quantifier that a word stands for. -/
def quantifier? (name : String) : Option Quantifier :=
  if name = Quantifier.any.name then some .any
  else if name = Quantifier.all.name then some .all
  else none

/-- A keyword with a dollar sign: `$it` and `$root` start a path, `$count` goes on with one. -/
def dollarMember (scope : Scope) (p : MemberPosition) (text : String) :
    TokenReader MemberPosition := do
  if text = "$it" ∧ p.atStart then
    return p.push (.it (← Resolution.require (.onlyForTypedParts "$it") scope.it))
  else if text = "$root" ∧ p.atStart then
    return p.push (← rootResource scope.aliases)
  else if text = "$count" ∧ !p.steps.isEmpty then
    if p.isCollection then return p.push .count
    else Resolution.reject (.onlyForCollections "$count")
  else TokenReader.malformed

/-- A step of a path that is a name. At the start of a path it is a variable, an entity set of a
cross join, or a property of the value the expression is evaluated on. -/
def namedMember (scope : Scope) (p : MemberPosition) (name : String) :
    TokenReader MemberPosition := do
  if p.atStart then
    if let some type := scope.boundType? name then
      return p.push (.lambdaVariable name type)
    if scope.joined.contains name then
      return { p with fromJoin := true }.push (← joinedResource scope.aliases name)
  if isQualified name then qualifiedMember scope p name
  else return p.push (← propertyMember scope p name)

/-- Go one step further with the token `t`. -/
def memberStep (scope : Scope) (nested : OperandReader) (p : MemberPosition) (t : Token) :
    TokenReader MemberPosition := do
  match t.kind with
  | .dollar => dollarMember scope p t.text
  | .identifier =>
    match quantifier? t.text with
    | some quantifier =>
      if (← TokenReader.sees .openParen) && !p.steps.isEmpty then
        if p.isCollection then
          return p.push (← quantified scope nested quantifier (p.type? scope))
        else Resolution.reject (.onlyForCollections t.text)
      else namedMember scope p t.text
    | none => namedMember scope p t.text
  | _ => TokenReader.malformed

/-- Read a path whose first token is `first`. A variable alone is no path but stands for itself. -/
def memberPath (scope : Scope) (nested : OperandReader) (first : Token) :
    TokenReader Expression := do
  let alone := !(← TokenReader.sees .slash)
  match first.kind, scope.boundType? first.text, alone with
  | .identifier, some type, true => return .boundVariable first.text type
  | _, _, _ =>
    let p ← memberStep scope nested MemberPosition.origin first
    let further (p : MemberPosition) : TokenReader MemberPosition := do
      memberStep scope nested p (← TokenReader.next)
    let p ← TokenReader.foldWhile (fun p t => if t.kind = .slash then some (further p) else none) p
    return .member p.start p.path

/-! ### Units with parts -/

/-- The argument of a method; `cast` and `isof` take the name of a type as their last one. -/
def methodArgument (scope : Scope) (nested : OperandReader) (m : Method) :
    TokenReader Expression := do
  let t ← TokenReader.peek
  let follows := (← TokenReader.peekAt 1).kind
  if m.takesType && t.kind == .identifier && isQualified t.text &&
      (follows == .comma || follows == .closeParen) then
    let _ ← TokenReader.next
    let name ← requireName t.text
    let type ← Resolution.require (.unknownType t.text) (← Resolution.answerTo (.type name))
    return .typeName type
  else nested scope 0

/-- A call of a method. -/
def methodCall (scope : Scope) (nested : OperandReader) (m : Method) : TokenReader Expression := do
  let _ ← TokenReader.expect .openParen
  let arguments ←
    if ← TokenReader.skips .closeParen then pure []
    else
      let arguments ← TokenReader.commaSeparated (methodArgument scope nested m)
      let _ ← TokenReader.expect .closeParen
      pure arguments
  if m.takes arguments.length then return .call m arguments
  else Resolution.refuse (.malformed m.name)

/-- An operator in front of its operand. -/
def unaryExpression (scope : Scope) (nested : OperandReader) (op : UnaryOperator) :
    TokenReader Expression := do
  let operand ← nested scope unaryPrecedence
  let type ← Resolution.ofSemantic (op.resultType operand.type?)
  return .unary op operand type

/-- An operand whose first token is `t`, with `follows` behind it: an expression in parentheses, a
sign or `not` with its operand, a literal, an alias, a call, or a path. -/
def operandFrom (scope : Scope) (nested : OperandReader) (t follows : Token) :
    TokenReader Expression :=
  let called := follows.kind == .openParen
  match t.kind with
  | .openParen => do
    let inner ← nested scope 0
    let _ ← TokenReader.expect .closeParen
    return inner
  | .minus => unaryExpression scope nested .minus
  | .literal => return literalExpression t.text
  | .enumLiteral => enumerationLiteral t.text
  | .parameterAlias => return .parameterAlias t.text
  | .identifier =>
    if t.text = "not" ∧ (follows.spaceBefore || called) then unaryExpression scope nested .not
    else
      match called, Method.ofName? t.text with
      | true, some m => methodCall scope nested m
      | _, _ => memberPath scope nested t
  | .dollar => memberPath scope nested t
  | _ => TokenReader.malformed

/-- An operand. -/
def operand (scope : Scope) (nested : OperandReader) : TokenReader Expression := do
  let t ← TokenReader.next
  operandFrom scope nested t (← TokenReader.peek)

/-! ### Operators -/

/-- An item of a list that `left` is looked up in. -/
def listItem (scope : Scope) (nested : OperandReader) (left : Expression) :
    TokenReader Expression := do
  let item ← nested scope 0
  let _ ← Resolution.ofSemantic (BinaryOperator.eq.resultType left.type? item.type?)
  return item

/-- What stands to the right of `in`: a list or an alias. -/
def listOperand (scope : Scope) (nested : OperandReader) (left : Expression) :
    TokenReader Expression := do
  let t ← TokenReader.next
  match t.kind with
  | .parameterAlias => return .parameterAlias t.text
  | .openParen => do
    let items ← TokenReader.commaSeparated (listItem scope nested left)
    let _ ← TokenReader.expect .closeParen
    return .list items
  | _ => TokenReader.malformed

/-- An operator between `left` and the operand that follows. -/
def binaryExpression (scope : Scope) (nested : OperandReader) (left : Expression)
    (op : BinaryOperator) : TokenReader Expression := do
  let right ←
    if op = .isIn then listOperand scope nested left else nested scope (op.precedence + 1)
  let type ← Resolution.ofSemantic (op.resultType left.type? right.type?)
  return .binary op left right type

/-- The operator that a token stands for, if it binds tight enough. -/
def operator? (least : Nat) (t : Token) : Option BinaryOperator :=
  if t.kind = .identifier ∧ t.spaceBefore then
    (BinaryOperator.ofName? t.text).filter fun op => least ≤ op.precedence
  else none

/-- An operand with the operators behind it that bind tight enough. -/
def operands (scope : Scope) (nested : OperandReader) (least : Nat) : TokenReader Expression := do
  let first ← operand scope nested
  TokenReader.foldWhile
    (fun left t => (operator? least t).map fun op => binaryExpression scope nested left op) first

/-- Read an expression, with so many levels of nesting left of a limit. -/
def expressionWithin (limit : Nat) : Nat → OperandReader
  | 0, _, _ => Resolution.refuse (.tooDeeplyNested (toString (limit + 1)))
  | room + 1, scope, least => operands scope (expressionWithin limit room) least

/-- Read an expression. -/
def expression (config : Config) (scope : Scope) : TokenReader Expression :=
  expressionWithin config.maxNesting config.maxNesting scope 0

end ODataRequest
