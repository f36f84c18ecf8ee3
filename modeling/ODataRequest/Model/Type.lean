import ODataRequest.Csdl.Schema
import ODataRequest.Primitive.Kind
import ODataRequest.Text.Digits

/-!
# ODataRequest.Model.Type

Types with their references resolved: no name inside them uses an alias, and a structured type
carries its whole chain of base types, the nearest first. Properties are looked up along the chain,
so a type sees what it declares itself before what it inherits.
-/

namespace ODataRequest

/-! ### Structured types -/

/-- What one type of a chain declares itself. -/
structure TypeLevel where
  name : QualifiedName
  isAbstract : Bool
  isOpen : Bool
  hasStream : Bool
  properties : List Csdl.Property
  navigationProperties : List Csdl.NavigationProperty

/-- An entity type or complex type with its base types, the nearest first. -/
structure StructuredType where
  own : TypeLevel
  bases : List TypeLevel

namespace StructuredType

/-- The type itself and its base types. -/
def levels (t : StructuredType) : List TypeLevel :=
  t.own :: t.bases

/-- The name of the type. -/
def name (t : StructuredType) : QualifiedName :=
  t.own.name

/-- The name of the direct base type. -/
def baseName? (t : StructuredType) : Option QualifiedName :=
  t.bases.head?.map TypeLevel.name

/-- The structural property of a name, declared here or inherited. -/
def property? (t : StructuredType) (name : String) : Option Csdl.Property :=
  t.levels.findSome? fun level => level.properties.find? (·.name.text == name)

/-- The navigation property of a name, declared here or inherited. -/
def navigationProperty? (t : StructuredType) (name : String) : Option Csdl.NavigationProperty :=
  t.levels.findSome? fun level => level.navigationProperties.find? (·.name.text == name)

/-- The names of all structural properties, those of the farthest base type first. -/
def propertyNames (t : StructuredType) : List String :=
  t.levels.reverse.flatMap fun level => level.properties.map (·.name.text)

/-- The names of all navigation properties, those of the farthest base type first. -/
def navigationPropertyNames (t : StructuredType) : List String :=
  t.levels.reverse.flatMap fun level => level.navigationProperties.map (·.name.text)

/-- Is the type the named one or derived from it? -/
def derivesFrom (t : StructuredType) (name : QualifiedName) : Bool :=
  t.levels.any (·.name == name)

/-- Open types are those that declare it or inherit it. -/
def isOpen (t : StructuredType) : Bool :=
  t.levels.any (·.isOpen)

/-- Every type derives from itself. -/
theorem derivesFrom_self (t : StructuredType) : t.derivesFrom t.name = true := by
  simp [derivesFrom, levels, name]

end StructuredType

/-- A key property: its alias or path as it is named in key predicates, the identifiers of its
path, and the property at the end of the path. -/
structure KeyProperty where
  name : String
  path : List Identifier
  property : Csdl.Property

namespace KeyProperty

/-- The path with slashes. -/
def pathText (k : KeyProperty) : String :=
  "/".intercalate (k.path.map Identifier.text)

end KeyProperty

/-- An entity type with its key, which is the one of the nearest type in the chain that declares
one. -/
structure EntityType extends StructuredType where
  keys : List KeyProperty

/-- Media entities have a stream, declared or inherited. -/
def EntityType.hasStream (t : EntityType) : Bool :=
  t.levels.any (·.hasStream)

/-- The key property of a name. -/
def EntityType.key? (t : EntityType) (name : String) : Option KeyProperty :=
  t.keys.find? (·.name == name)

/-! ### Enumerations and type definitions -/

/-- A member of an enumeration with its value. -/
structure EnumMember where
  name : Identifier
  value : Int

/-- An enumeration. -/
structure EnumType where
  name : QualifiedName
  underlying : PrimitiveKind
  isFlags : Bool
  members : List EnumMember

/-- The member a text stands for: one of that name, or else the first one of that value. -/
def EnumType.member? (t : EnumType) (text : String) : Option EnumMember :=
  (t.members.find? (·.name.text == text)).or
    ((Text.integer? text.toList).bind fun n => t.members.find? (·.value == n))

/-- A type definition. -/
structure TypeDefinition where
  name : QualifiedName
  underlying : PrimitiveKind
  maxLength : Option Nat
  precision : Option Nat
  scale : Option Nat

/-! ### Any type -/

/-- Any type that a property, a parameter or a result can have. -/
inductive ModelType where
  | primitive (kind : PrimitiveKind)
  | entity (type : EntityType)
  | complex (type : StructuredType)
  | enumeration (type : EnumType)
  | definition (type : TypeDefinition)

namespace ModelType

/-- The qualified name. -/
def name : ModelType → QualifiedName
  | .primitive k => k.qualifiedName
  | .entity t => t.name
  | .complex t => t.name
  | .enumeration t => t.name
  | .definition t => t.name

/-- The qualified name as text. -/
def text (t : ModelType) : String :=
  t.name.text

/-- The entity type or complex type, as a structured type. -/
def structured? : ModelType → Option StructuredType
  | .entity t => some t.toStructuredType
  | .complex t => some t
  | _ => none

/-- The entity type. -/
def entity? : ModelType → Option EntityType
  | .entity t => some t
  | _ => none

/-- The primitive type, through a type definition if need be. -/
def primitive? : ModelType → Option PrimitiveKind
  | .primitive k => some k
  | .definition t => some t.underlying
  | _ => none

/-- Is it an entity type? -/
def isEntity : ModelType → Bool
  | .entity _ => true
  | _ => false

/-- Is it an enumeration? -/
def isEnumeration : ModelType → Bool
  | .enumeration _ => true
  | _ => false

/-- Is it `Edm.Boolean` or a definition over it? -/
def isBoolean (t : ModelType) : Bool :=
  t.primitive? == some .boolean

/-- May a value of the type stand where `expected` is? Primitive types are promoted, structured
types may be derived ones, other types have to have the same name. -/
def isCompatibleWith (t expected : ModelType) : Bool :=
  match t.primitive?, expected.primitive? with
  | some source, some target => target.accepts source
  | _, _ =>
    match t.structured?, expected.structured? with
    | some source, some target => source.derivesFrom target.name
    | _, _ => t.name == expected.name

/-- Are both the same kind of type and of the same name? -/
def same : ModelType → ModelType → Bool
  | .primitive a, .primitive b => a == b
  | .entity a, .entity b => a.name == b.name
  | .complex a, .complex b => a.name == b.name
  | .enumeration a, .enumeration b => a.name == b.name
  | .definition a, .definition b => a.name == b.name
  | _, _ => false

end ModelType

end ODataRequest
