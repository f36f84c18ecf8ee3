import ODataRequest.Expression.Basic

/-!
# ODataRequest.Expression.Text

The text of resources and expressions. Parentheses are written only where an operand binds less
tight than its place asks: the left operand of an operator has to bind as tight as the operator
itself, the right one tighter, and the operand of a sign or of `not` has to be a single unit.
-/

namespace ODataRequest

/-- How tight a sign or `not` binds. -/
def unaryPrecedence : Nat := 8

/-- Every operator between operands binds less tight than one in front of its operand. -/
theorem BinaryOperator.precedence_lt (op : BinaryOperator) : op.precedence < unaryPrecedence := by
  cases op <;> decide

/-- How tight everything binds that is no operator. -/
def unitPrecedence : Nat := 9

/-- How tight an expression binds. -/
def Expression.precedence : Expression → Nat
  | .binary op _ _ _ => op.precedence
  | .unary _ _ _ => unaryPrecedence
  | _ => unitPrecedence

/-- A text between parentheses if it binds less tight than its place asks. -/
def grouped (least precedence : Nat) (text : String) : String :=
  if precedence < least then "(" ++ text ++ ")" else text

/-- Texts with commas between them. -/
def commaJoined (texts : List String) : String :=
  ",".intercalate texts

theorem commaJoined_cons_cons (text text' : String) (texts : List String) :
    commaJoined (text :: text' :: texts) = text ++ "," ++ commaJoined (text' :: texts) := by
  simp [commaJoined, String.intercalate_cons_cons]

/-- The text of a key: a single value stands alone, several have their names. -/
def keyText : List KeyPredicate → String
  | [] => ""
  | [k] => "(" ++ k.value.text ++ ")"
  | ks => "(" ++ commaJoined (ks.map fun k => k.name ++ "=" ++ k.value.text) ++ ")"

/-- The text of an argument list. -/
def argumentText (arguments : List Argument) : String :=
  "(" ++ commaJoined (arguments.map fun a => a.name ++ "=" ++ a.value.text) ++ ")"

/-- The text of a cast. -/
def castText : Option ModelType → String
  | some type => "/" ++ type.text
  | none => ""

/-- The text of a resource that applies no expression: a cast of a collection stands in front of
the key, a cast of a single value behind it. -/
def Resource.plainText (r : Resource) : String :=
  let arguments :=
    match r with
    | .function _ _ arguments _ _ _ => argumentText arguments
    | _ => ""
  r.segment ++ arguments ++ castText r.casts.onCollection ++ keyText r.keys ++
    castText r.casts.onEntry

/-- Texts of steps with slashes between them, a leading cast in front. -/
def pathText (start : Option ModelType) (steps : List String) : String :=
  "/".intercalate ((start.map ModelType.text).toList ++ steps)

mutual

/-- The text of an expression. -/
def Expression.text : Expression → String
  | .binary op left right _ =>
    grouped op.precedence left.precedence left.text ++ " " ++ op.name ++ " " ++
      grouped (op.precedence + 1) right.precedence right.text
  | .unary op operand _ =>
    let sign := match op with
      | .minus => "-"
      | .not => "not "
    sign ++ grouped unitPrecedence operand.precedence operand.text
  | .call method arguments => method.name ++ "(" ++ commaJoined (Expression.texts arguments) ++ ")"
  | .literal text _ => text
  | .member start path => pathText start (Resource.texts path)
  | .parameterAlias name => name
  | .typeName type => type.text
  | .enumeration type members => type.name.text ++ "'" ++ commaJoined members ++ "'"
  | .boundVariable name _ => name
  | .list items => "(" ++ commaJoined (Expression.texts items) ++ ")"
termination_by structural e => e

/-- The texts of expressions. -/
def Expression.texts : List Expression → List String
  | [] => []
  | e :: es => e.text :: Expression.texts es
termination_by structural es => es

/-- The text of a resource. -/
def Resource.text : Resource → String
  | .lambda quantifier name body => quantifier.name ++ "(" ++ name ++ ":" ++ body.text ++ ")"
  | .notEmpty => Quantifier.any.name ++ "()"
  | .entitySet set type keys casts => Resource.plainText (.entitySet set type keys casts)
  | .singleton single type cast => Resource.plainText (.singleton single type cast)
  | .navigation p target keys casts => Resource.plainText (.navigation p target keys casts)
  | .property p type casts => Resource.plainText (.property p type casts)
  | .value => "$value"
  | .count => "$count"
  | .ref => "$ref"
  | .action a byImport returnType => Resource.plainText (.action a byImport returnType)
  | .function f byImport arguments returnType keys casts =>
    Resource.plainText (.function f byImport arguments returnType keys casts)
  | .it _ => "$it"
  | .lambdaVariable name _ => name
termination_by structural r => r

/-- The texts of resources. -/
def Resource.texts : List Resource → List String
  | [] => []
  | r :: rs => r.text :: Resource.texts rs
termination_by structural rs => rs

end

end ODataRequest
