import ODataRequest.Name

/-!
# ODataRequest.Csdl.Schema

Schemas as they are declared in the Common Schema Definition Language: a namespace with an optional
alias, and its elements. References inside a schema may use the alias of any namespace. Values that
a document may leave out have their defaults filled in here already, so a property without
`Nullable` is nullable and an entity set without `IncludeInServiceDocument` is listed.
-/

namespace ODataRequest.Csdl

/-! ### Structured types -/

/-- A structural property. -/
structure Property where
  name : Identifier
  type : TypeReference
  nullable : Bool
  maxLength : Option Nat
  precision : Option Nat
  scale : Option Nat
  defaultValue : Option String

/-- A navigation property; its type is an entity type or a collection of one. -/
structure NavigationProperty where
  name : Identifier
  type : TypeReference
  nullable : Bool
  partner : Option String
  containsTarget : Bool

/-- A reference to a key property: a name, or a path into complex properties, and an alias. -/
structure KeyReference where
  path : String
  aliasName : Option String

/-- What entity types and complex types have in common. -/
structure StructuredType where
  name : Identifier
  baseType : Option QualifiedName
  isAbstract : Bool
  isOpen : Bool
  properties : List Property
  navigationProperties : List NavigationProperty

/-- An entity type. An empty key is inherited. -/
structure EntityType extends StructuredType where
  hasStream : Bool
  key : List KeyReference

/-! ### Other types and terms -/

/-- A member of an enumeration; without a value it has its position. -/
structure EnumMember where
  name : Identifier
  value : Option Int

/-- An enumeration, over 32-bit integers unless it says otherwise. -/
structure EnumType where
  name : Identifier
  underlyingType : Option QualifiedName
  isFlags : Bool
  members : List EnumMember

/-- A type definition over a primitive type. -/
structure TypeDefinition where
  name : Identifier
  underlyingType : QualifiedName
  maxLength : Option Nat
  precision : Option Nat
  scale : Option Nat

/-- A term that annotations apply. -/
structure Term where
  name : Identifier
  type : TypeReference
  baseTerm : Option QualifiedName
  appliesTo : Option String
  defaultValue : Option String
  nullable : Bool

/-- An application of a term, with its value in one of four forms. -/
structure Annotation where
  term : QualifiedName
  qualifier : Option String
  string : Option String
  bool : Option Bool
  int : Option Int
  enumMember : Option String

/-- Annotations of one target, which is a name or a path. -/
structure AnnotationGroup where
  target : String
  qualifier : Option String
  annotations : List Annotation

/-! ### Operations -/

/-- A parameter of an action or a function. -/
structure Parameter where
  name : Identifier
  type : TypeReference
  nullable : Bool

/-- The result of an action or a function. -/
structure ReturnType where
  type : TypeReference
  nullable : Bool

/-- What actions and functions have in common. The first parameter of a bound operation is the
binding parameter. -/
structure Operation where
  name : Identifier
  isBound : Bool
  entitySetPath : Option String
  parameters : List Parameter

/-- An action, which may have no result. -/
structure Action extends Operation where
  returnType : Option ReturnType

/-- A function. -/
structure Function extends Operation where
  isComposable : Bool
  returnType : ReturnType

/-! ### Entity container -/

/-- The entity set or singleton that a navigation property leads to. -/
structure NavigationBinding where
  path : String
  target : String

/-- An entity set. -/
structure EntitySet where
  name : Identifier
  entityType : QualifiedName
  bindings : List NavigationBinding
  inServiceDocument : Bool

/-- A singleton. -/
structure Singleton where
  name : Identifier
  entityType : QualifiedName
  bindings : List NavigationBinding

/-- An action import. -/
structure ActionImport where
  name : Identifier
  action : QualifiedName
  entitySet : Option String

/-- A function import. -/
structure FunctionImport where
  name : Identifier
  function : QualifiedName
  entitySet : Option String
  inServiceDocument : Bool

/-- The entity container of a schema. -/
structure Container where
  name : Identifier
  entitySets : List EntitySet
  singletons : List Singleton
  actionImports : List ActionImport
  functionImports : List FunctionImport

/-! ### Schema -/

/-- A schema. -/
structure Schema where
  space : Namespace
  aliasName : Option Identifier
  entityTypes : List EntityType
  complexTypes : List StructuredType
  enumTypes : List EnumType
  typeDefinitions : List TypeDefinition
  actions : List Action
  functions : List Function
  terms : List Term
  container : Option Container
  annotations : List AnnotationGroup

/-- The alias in the form of a namespace. -/
def Schema.aliasSpace? (s : Schema) : Option Namespace :=
  s.aliasName.map fun id => ⟨id, []⟩

end ODataRequest.Csdl
