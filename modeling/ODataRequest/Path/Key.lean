import ODataRequest.Expression.Basic
import ODataRequest.Token.Reader

/-!
# ODataRequest.Path.Key

Keys and arguments in parentheses. A key names every key property of a type once, in any order, or
gives the value of the only key property without a name. Values are literals of the type of the
property or parameter aliases that stand for such literals. The key that is read has its properties
in the order of the declaration.
-/

namespace ODataRequest

/-- The texts of parameter aliases, by name with the `@`. -/
abbrev AliasTable := List (String × String)

/-! ### Keys -/

/-- The primitive type of a key property. -/
def keyKind (key : KeyProperty) : Resolution PrimitiveKind := do
  let name := key.property.type.name
  match PrimitiveKind.ofName? name with
  | some kind => return kind
  | none =>
    match (← requireType name).primitive? with
    | some kind => return kind
    | none => .fail (.directory (.unresolvedType name))

/-- The value of a key literal, which must not be `null`. -/
def checkedKey (key : KeyProperty) (kind : PrimitiveKind) (text : String) :
    Resolution PrimitiveValue :=
  match kind.validate text with
  | .ok .null => Resolution.reject (.invalidKeyValue key.name text)
  | .ok value => return value
  | .error _ => Resolution.reject (.invalidKeyValue key.name text)

/-- A key property with the value that a token gives it. -/
def keyPredicate (aliases : AliasTable) (key : KeyProperty) (t : Token) :
    Resolution KeyPredicate := do
  let kind ← keyKind key
  let value : KeyValue ←
    match t.kind with
    | .parameterAlias => do
      let text ← Resolution.require (.unknownAlias t.text) (aliases.lookup t.text)
      let _ ← checkedKey key kind text
      pure (.parameterAlias t.text)
    | .literal | .enumLiteral => pure (.literal t.text (← checkedKey key kind t.text))
    | _ => Resolution.refuse (.malformed t.text)
  let aliasName := if key.name = key.pathText then none else some key.name
  return { path := key.pathText, aliasName, value }

/-- Read `name=value` behind the predicates that are read already. -/
def namedKey (aliases : AliasTable) (keys : List KeyProperty) (read : List KeyPredicate) :
    TokenReader (List KeyPredicate) := do
  let name := (← TokenReader.expect .identifier).text
  let _ ← TokenReader.expect .equals
  match keys.find? fun k => k.name == name || k.pathText == name with
  | none => Resolution.reject (.invalidKey name)
  | some key =>
    if read.any (·.path == key.pathText) then Resolution.reject (.repeatedKey name)
    else
      let predicate ← keyPredicate aliases key (← TokenReader.next)
      return read ++ [predicate]

/-- Predicates in the order of the declaration. -/
def inDeclaredOrder (keys : List KeyProperty) (predicates : List KeyPredicate) :
    List KeyPredicate :=
  (keys.map KeyProperty.pathText).eraseDups.filterMap fun path => predicates.find? (·.path == path)

/-- Read `name=value,...`, which has to name all key properties. -/
def namedKeys (aliases : AliasTable) (keys : List KeyProperty) :
    TokenReader (List KeyPredicate) := do
  let predicates ← TokenReader.foldSeparated .comma (namedKey aliases keys) []
  match keys.find? fun k => !predicates.any (·.path == k.pathText) with
  | some missing => Resolution.reject (.invalidKey missing.name)
  | none => return inDeclaredOrder keys predicates

/-- Read a key of an entity type, `(value)` or `(name=value,...)`. -/
def key (aliases : AliasTable) (type : EntityType) : TokenReader (List KeyPredicate) := do
  let _ ← TokenReader.expect .openParen
  if ← TokenReader.sees .closeParen then
    Resolution.reject (.wrongNumberOfKeys type.name.text)
  let named := (← TokenReader.sees .identifier) && (← TokenReader.peekAt 1).kind == .equals
  let predicates ←
    if named then namedKeys aliases type.keys
    else
      match type.keys with
      | [only] => do pure [← keyPredicate aliases only (← TokenReader.next)]
      | _ => Resolution.reject (.wrongNumberOfKeys type.name.text)
  let _ ← TokenReader.expect .closeParen
  return predicates

/-! ### Arguments -/

/-- Read `name=value` behind the arguments that are read already; a repeated name is refused. -/
def rawArgument (read : List (String × Token)) : TokenReader (List (String × Token)) := do
  let name := (← TokenReader.expect .identifier).text
  let _ ← TokenReader.expect .equals
  let value ← TokenReader.next
  if read.any (·.1 == name) then TokenReader.malformed else return read ++ [(name, value)]

/-- Read the arguments of a function, `()` or `(name=value,...)`. -/
def rawArguments : TokenReader (List (String × Token)) := do
  let _ ← TokenReader.expect .openParen
  if ← TokenReader.skips .closeParen then return []
  let read ← TokenReader.foldSeparated .comma rawArgument []
  let _ ← TokenReader.expect .closeParen
  return read

/-- The primitive type of a parameter; a collection has none. -/
def parameterKind? (p : Csdl.Parameter) : Resolution (Option PrimitiveKind) := do
  if p.type.isCollection then return none else return (← requireType p.type.name).primitive?

/-- An argument of a function with the value that a token gives it. -/
def argument (f : Function) (raw : String × Token) : Resolution Argument := do
  let (name, t) := raw
  let parameter ← Resolution.require (.functionNotFound f.name.text) (f.parameter? name)
  match t.kind with
  | .parameterAlias => return { name, value := .parameterAlias t.text }
  | .literal | .enumLiteral =>
    match ← parameterKind? parameter with
    | none => return { name, value := .literal t.text none }
    | some kind =>
      match kind.validate t.text with
      | .ok value => return { name, value := .literal t.text (some value) }
      | .error _ => Resolution.reject (.typeMismatch name [t.text])
  | _ => Resolution.refuse (.malformed t.text)

/-- The arguments of a function. -/
def argumentsOf (f : Function) (raw : List (String × Token)) : Resolution (List Argument) :=
  raw.mapM (argument f)

end ODataRequest
