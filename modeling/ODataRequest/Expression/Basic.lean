import ODataRequest.Expression.Method
import ODataRequest.Expression.Operator
import ODataRequest.Model.Container
import ODataRequest.Model.Operation
import ODataRequest.Primitive.Value

/-!
# ODataRequest.Expression.Basic

Resources and expressions. A resource is a step of a path: it knows its type, the casts that narrow
it, and whether it stands for a collection; a key makes a single entity of a collection. A path
inside an expression may apply an expression to the members of a collection, and an expression
may be such a path, so the two types are mutual.
-/

namespace ODataRequest

/-! ### Values in paths -/

/-- The value of a key property: a literal of the type of the property, or a parameter alias. -/
inductive KeyValue where
  | literal (text : String) (value : PrimitiveValue)
  | parameterAlias (name : String)

/-- The text of a key value. -/
def KeyValue.text : KeyValue → String
  | .literal text _ => text
  | .parameterAlias name => name

/-- A key property with its value: the path of the property and, if it has one, the alias. -/
structure KeyPredicate where
  path : String
  aliasName : Option String
  value : KeyValue

/-- The name of a key property in a URL. -/
def KeyPredicate.name (k : KeyPredicate) : String :=
  k.aliasName.getD k.path

/-- The value of a parameter: a literal, whose value is known if the parameter is primitive, or a
parameter alias. -/
inductive ArgumentValue where
  | literal (text : String) (value : Option PrimitiveValue)
  | parameterAlias (name : String)

/-- The text of an argument. -/
def ArgumentValue.text : ArgumentValue → String
  | .literal text _ => text
  | .parameterAlias name => name

/-- A named argument of a function. -/
structure Argument where
  name : String
  value : ArgumentValue

/-- The casts of a resource: one of a collection as a whole, one of a single value. -/
structure Casts where
  onCollection : Option ModelType
  onEntry : Option ModelType

/-- No casts. -/
def Casts.none : Casts :=
  ⟨.none, .none⟩

/-- A type as the casts narrow it. -/
def Casts.narrow (c : Casts) (declared : ModelType) : ModelType :=
  (c.onEntry.or c.onCollection).getD declared

/-- The cast that applies to a collection or to a single value. -/
def Casts.slot (c : Casts) (isCollection : Bool) : Option ModelType :=
  if isCollection then c.onCollection else c.onEntry

/-- Add a cast of a collection or of a single value. -/
def Casts.add (c : Casts) (isCollection : Bool) (cast : ModelType) : Casts :=
  if isCollection then { c with onCollection := some cast } else { c with onEntry := some cast }

/-! ### Resources and expressions -/

/-- Does a condition have to hold for all members of a collection, or for any? -/
inductive Quantifier where
  | all
  | any
deriving DecidableEq, Repr

/-- The word for a quantifier. -/
def Quantifier.name : Quantifier → String
  | .all => "all"
  | .any => "any"

mutual

/-- A step of a path. `it` is the value an expression is evaluated on, `lambdaVariable` stands for
a member of a collection, and `notEmpty` asks whether a collection has members. -/
inductive Resource where
  | entitySet (set : EntitySet) (type : EntityType) (keys : List KeyPredicate) (casts : Casts)
  | singleton (single : Singleton) (type : EntityType) (cast : Option ModelType)
  | navigation (property : Csdl.NavigationProperty) (target : EntityType)
    (keys : List KeyPredicate) (casts : Casts)
  | property (property : Csdl.Property) (type : ModelType) (casts : Casts)
  | value
  | count
  | ref
  | action (action : Action) (byImport : Option Csdl.ActionImport) (returnType : Option ModelType)
  | function (function : Function) (byImport : Option Csdl.FunctionImport)
    (arguments : List Argument) (returnType : ModelType) (keys : List KeyPredicate) (casts : Casts)
  | it (type : ModelType)
  | lambdaVariable (name : String) (type : ModelType)
  | lambda (quantifier : Quantifier) (name : String) (body : Expression)
  | notEmpty

/-- An expression. Operators keep the type of their result, literals their own type; both may be
unknown. -/
inductive Expression where
  | binary (op : BinaryOperator) (left right : Expression) (type : Option ModelType)
  | unary (op : UnaryOperator) (operand : Expression) (type : Option ModelType)
  | call (method : Method) (arguments : List Expression)
  | literal (text : String) (type : Option ModelType)
  | member (start : Option ModelType) (path : List Resource)
  | parameterAlias (name : String)
  | typeName (type : ModelType)
  | enumeration (type : EnumType) (members : List String)
  | boundVariable (name : String) (type : ModelType)
  | list (items : List Expression)

end

namespace Resource

/-- The type of a resource as its casts narrow it. A value or a reference has none. -/
def type? : Resource → Option ModelType
  | .entitySet _ type _ casts => some (casts.narrow (.entity type))
  | .singleton _ type cast => some (cast.getD (.entity type))
  | .navigation _ target _ casts => some (casts.narrow (.entity target))
  | .property _ type casts => some (casts.narrow type)
  | .function _ _ _ returnType _ casts => some (casts.narrow returnType)
  | .action _ _ returnType => returnType
  | .it type => some type
  | .lambdaVariable _ type => some type
  | .count => some (.primitive (.integer .int32))
  | .lambda _ _ _ => some (.primitive .boolean)
  | .notEmpty => some (.primitive .boolean)
  | .value => none
  | .ref => none

/-- Does a resource stand for a collection? -/
def isCollection : Resource → Bool
  | .entitySet _ _ keys _ => keys.isEmpty
  | .navigation p _ keys _ => keys.isEmpty && p.type.isCollection
  | .property p _ _ => p.type.isCollection
  | .function f _ _ _ keys _ => keys.isEmpty && f.returnType.type.isCollection
  | .action a _ _ => a.returnType.any (·.type.isCollection)
  | .singleton _ _ _ | .value | .count | .ref | .it _ | .lambdaVariable _ _ | .lambda _ _ _
  | .notEmpty => false

/-- The key of a resource. -/
def keys : Resource → List KeyPredicate
  | .entitySet _ _ keys _ => keys
  | .navigation _ _ keys _ => keys
  | .function _ _ _ _ keys _ => keys
  | _ => []

/-- The same resource with another key; a resource that takes none stays as it is. -/
def withKeys (keys : List KeyPredicate) : Resource → Resource
  | .entitySet set type _ casts => .entitySet set type keys casts
  | .navigation p target _ casts => .navigation p target keys casts
  | .function f byImport arguments returnType _ casts =>
    .function f byImport arguments returnType keys casts
  | r => r

/-- May a resource have a key? -/
def takesKey : Resource → Bool
  | .entitySet _ _ _ _ | .navigation _ _ _ _ | .function _ _ _ _ _ _ => true
  | _ => false

/-- The casts of a resource; a singleton is cast as a single value. -/
def casts : Resource → Casts
  | .entitySet _ _ _ casts => casts
  | .navigation _ _ _ casts => casts
  | .property _ _ casts => casts
  | .function _ _ _ _ _ casts => casts
  | .singleton _ _ cast => ⟨none, cast⟩
  | _ => Casts.none

/-- The same resource with other casts; a resource that takes none stays as it is. -/
def withCasts (casts : Casts) : Resource → Resource
  | .entitySet set type keys _ => .entitySet set type keys casts
  | .navigation p target keys _ => .navigation p target keys casts
  | .property p type _ => .property p type casts
  | .function f byImport arguments returnType keys _ =>
    .function f byImport arguments returnType keys casts
  | .singleton single type _ => .singleton single type casts.onEntry
  | r => r

/-- May a resource be cast? A property may if its type is complex. -/
def takesCast : Resource → Bool
  | .entitySet _ _ _ _ | .navigation _ _ _ _ | .function _ _ _ _ _ _ | .singleton _ _ _ => true
  | .property _ (.complex _) _ => true
  | _ => false

/-- The name of a step, without keys, arguments and casts. -/
def segment : Resource → String
  | .entitySet set _ _ _ => set.name.text
  | .singleton single _ _ => single.name.text
  | .navigation p _ _ _ => p.name.text
  | .property p _ _ => p.name.text
  | .value => "$value"
  | .count => "$count"
  | .ref => "$ref"
  | .action a byImport _ => (byImport.map (·.name.text)).getD a.name.text
  | .function f byImport _ _ _ _ => (byImport.map (·.name.text)).getD f.name.text
  | .it _ => "$it"
  | .lambdaVariable name _ => name
  | .lambda quantifier _ _ => quantifier.name
  | .notEmpty => Quantifier.any.name

/-- Is it a complex property? -/
def isComplexProperty : Resource → Bool
  | .property _ (.complex _) _ => true
  | _ => false

/-- Is it a navigation property? -/
def isNavigation : Resource → Bool
  | .navigation _ _ _ _ => true
  | _ => false

end Resource

namespace Expression

/-- The last of some arguments that names a type. -/
def namedType? (arguments : List Expression) : Option ModelType :=
  arguments.reverse.findSome? fun
    | .typeName type => some type
    | _ => none

mutual

/-- The type of an expression as far as it is known. -/
def type? : Expression → Option ModelType
  | .binary _ _ _ type => type
  | .unary _ _ type => type
  | .call method arguments => method.resultType (firstType? arguments) (namedType? arguments)
  | .literal _ type => type
  | .member start path => (path.getLast?.map Resource.type?).getD start
  | .parameterAlias _ => none
  | .typeName _ => none
  | .enumeration type _ => some (.enumeration type)
  | .boundVariable _ type => some type
  | .list _ => none
termination_by structural e => e

/-- The type of the first of some expressions. -/
def firstType? : List Expression → Option ModelType
  | [] => none
  | e :: _ => e.type?
termination_by structural es => es

end

end Expression

end ODataRequest
