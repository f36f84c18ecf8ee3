import ODataRequest.Directory.Basic
import ODataRequest.Text.Cut

/-!
# ODataRequest.Directory.Types

Types in the directory. A structured type is resolved with its chain of base types; a chain that
comes back to a type it is resolving is reported as cyclic. The key of an entity type is resolved
along paths into complex types.
-/

namespace ODataRequest

/-! ### Properties -/

/-- A structural property with its reference resolved. -/
def resolveProperty (p : Csdl.Property) : InDirectory Csdl.Property := do
  return { p with type := ← resolveReference p.type }

/-- A navigation property with its reference resolved. -/
def resolveNavigationProperty (p : Csdl.NavigationProperty) :
    InDirectory Csdl.NavigationProperty := do
  return { p with type := ← resolveReference p.type }

/-! ### Structured types -/

/-- What a declared type contributes itself to its chain. -/
def resolveLevel (name : QualifiedName) (hasStream : Bool) (t : Csdl.StructuredType) :
    InDirectory TypeLevel := do
  let properties ← t.properties.mapM resolveProperty
  let navigationProperties ← t.navigationProperties.mapM resolveNavigationProperty
  return { name, isAbstract := t.isAbstract, isOpen := t.isOpen, hasStream, properties,
           navigationProperties }

/-- The base type of a declared type, found by `find`; a base type that is unknown is a defect. -/
def resolveBase {α : Type} (find : QualifiedName → InDirectory (Option α))
    (baseType : Option QualifiedName) : InDirectory (Option α) := do
  match baseType with
  | none => return none
  | some name =>
    let name ← resolveAlias name
    match ← find name with
    | some base => return some base
    | none => throw (.unresolvedType name)

/-- The types of one sort that inherit from each other: entity types, or complex types. -/
structure TypeFamily (δ α : Type) where
  store : StoreIn QualifiedName α
  /-- Ask the source for a declared type. -/
  declared : QualifiedName → InDirectory (Option δ)
  baseType : δ → Option QualifiedName
  /-- The context that a failure inside a type of this name is put into. -/
  context : QualifiedName → DirectoryError → DirectoryError
  /-- A declared type on top of its resolved base type. -/
  complete : QualifiedName → δ → Option α → InDirectory α

namespace TypeFamily

/-- A type by its real name, its base type found by `find`. -/
def load {δ α : Type} (family : TypeFamily δ α) (name : QualifiedName)
    (find : QualifiedName → InDirectory (Option α)) : InDirectory (Option α) := do
  match ← family.declared name with
  | none => return none
  | some declared =>
    InDirectory.inContext (family.context name) do
      let base ← resolveBase find (family.baseType declared)
      return some (← family.complete name declared base)

/-- A type by its real name, while the types in `visiting` are being resolved. -/
def resolveFrom {δ α : Type} (family : TypeFamily δ α) :
    Nat → List QualifiedName → QualifiedName → InDirectory (Option α)
  | bound, visiting, name => do
    if visiting.contains name then throw (.cyclicBaseType name)
    family.store.remembered name <| family.load name <|
      match bound with
      | 0 => fun base => throw (.cyclicBaseType base)
      | bound + 1 => family.resolveFrom bound (name :: visiting)

theorem resolveFrom_zero {δ α : Type} (family : TypeFamily δ α) (visiting : List QualifiedName)
    (name : QualifiedName) :
    family.resolveFrom 0 visiting name =
      if visiting.contains name then throw (.cyclicBaseType name)
      else family.store.remembered name
        (family.load name fun base => throw (.cyclicBaseType base)) := rfl

theorem resolveFrom_succ {δ α : Type} (family : TypeFamily δ α) (bound : Nat)
    (visiting : List QualifiedName) (name : QualifiedName) :
    family.resolveFrom (bound + 1) visiting name =
      if visiting.contains name then throw (.cyclicBaseType name)
      else family.store.remembered name
        (family.load name (family.resolveFrom bound (name :: visiting))) := rfl

/-- The type of a name. -/
def resolve {δ α : Type} (family : TypeFamily δ α) (name : QualifiedName) :
    InDirectory (Option α) := do
  let name ← resolveAlias name
  family.resolveFrom (← get).source.chainBound [] name

end TypeFamily

/-- A declared complex type on top of its base type. -/
def completeComplexType (name : QualifiedName) (declared : Csdl.StructuredType)
    (base : Option StructuredType) : InDirectory StructuredType := do
  let own ← resolveLevel name false declared
  return ⟨own, (base.map StructuredType.levels).getD []⟩

/-- The complex types. -/
def complexTypeFamily : TypeFamily Csdl.StructuredType StructuredType :=
  { store := complexTypeStore
    declared := fun name => askSource (.complexType name)
    baseType := fun declared => declared.baseType
    context := .inComplexType
    complete := completeComplexType }

/-- The complex type of a name. -/
def complexType (name : QualifiedName) : InDirectory (Option StructuredType) :=
  complexTypeFamily.resolve name

/-! ### Keys -/

/-- Follow a path from a property into the complex types it leads through. -/
def followPath (unresolved : DirectoryError) (p : Csdl.Property) :
    List Identifier → InDirectory Csdl.Property
  | [] => return p
  | id :: ids => do
    match (← complexType p.type.name).bind (·.property? id.text) with
    | some next => followPath unresolved next ids
    | none => throw unresolved

/-- Read the identifiers of a path. -/
def pathIdentifiers (path : String) : Except NameError (List Identifier) :=
  (Text.pieces '/' path.toList).mapM fun piece => Identifier.parse (String.ofList piece)

/-- A key reference of a type, resolved. -/
def resolveKey (t : StructuredType) (key : Csdl.KeyReference) : InDirectory KeyProperty := do
  let unresolved := DirectoryError.unresolvedKeyProperty key.path
  match pathIdentifiers key.path with
  | .error e => throw (.invalidName e)
  | .ok [] => throw unresolved
  | .ok (first :: rest) =>
    match t.property? first.text with
    | none => throw unresolved
    | some p =>
      let property ← followPath unresolved p rest
      return { name := key.aliasName.getD key.path, path := first :: rest, property }

/-! ### Entity types -/

/-- A declared entity type on top of its base type, whose key it has unless it declares one. -/
def completeEntityType (name : QualifiedName) (declared : Csdl.EntityType)
    (base : Option EntityType) : InDirectory EntityType := do
  let own ← resolveLevel name declared.hasStream declared.toStructuredType
  let chain : StructuredType := ⟨own, (base.map (·.levels)).getD []⟩
  let keys ←
    if declared.key.isEmpty then pure ((base.map (·.keys)).getD [])
    else declared.key.mapM (resolveKey chain)
  return { toStructuredType := chain, keys }

/-- The entity types. -/
def entityTypeFamily : TypeFamily Csdl.EntityType EntityType :=
  { store := entityTypeStore
    declared := fun name => askSource (.entityType name)
    baseType := fun declared => declared.baseType
    context := .inEntityType
    complete := completeEntityType }

/-- The entity type of a name. -/
def entityType (name : QualifiedName) : InDirectory (Option EntityType) :=
  entityTypeFamily.resolve name

/-! ### Enumerations and type definitions -/

/-- Members with their values; one without a value has its position. -/
def numbered (members : List Csdl.EnumMember) : List EnumMember :=
  members.zipIdx.map fun p => ⟨p.1.name, p.1.value.getD p.2⟩

/-- The primitive type under an enumeration or a type definition. -/
def underlyingKind (name : QualifiedName) : InDirectory PrimitiveKind :=
  match PrimitiveKind.ofName? name with
  | some kind => return kind
  | none => throw (.unresolvedType name)

/-- The declared enumeration of a real name, resolved. -/
def loadEnumType (name : QualifiedName) : InDirectory (Option EnumType) := do
  match ← askSource (.enumType name) with
  | none => return none
  | some declared =>
    let underlying ←
      match declared.underlyingType with
      | none => pure (.integer .int32)
      | some underlying => underlyingKind underlying
    return some { name, underlying, isFlags := declared.isFlags,
                  members := numbered declared.members }

/-- The enumeration of a name. -/
def enumType (name : QualifiedName) : InDirectory (Option EnumType) := do
  let name ← resolveAlias name
  enumTypeStore.remembered name (loadEnumType name)

/-- The declared type definition of a real name, resolved. -/
def loadTypeDefinition (name : QualifiedName) : InDirectory (Option TypeDefinition) := do
  match ← askSource (.typeDefinition name) with
  | none => return none
  | some declared =>
    let underlying ← underlyingKind declared.underlyingType
    return some { name, underlying, maxLength := declared.maxLength,
                  precision := declared.precision, scale := declared.scale }

/-- The type definition of a name. -/
def typeDefinition (name : QualifiedName) : InDirectory (Option TypeDefinition) := do
  let name ← resolveAlias name
  typeDefinitionStore.remembered name (loadTypeDefinition name)

/-! ### Any type -/

/-- The type of a name: primitive, entity, complex, enumeration or type definition, in this
order. -/
def resolveType (name : QualifiedName) : InDirectory (Option ModelType) := do
  let name ← resolveAlias name
  if name.isEdm then return (PrimitiveKind.ofName? name).map .primitive
  if let some t ← entityType name then return some (.entity t)
  if let some t ← complexType name then return some (.complex t)
  if let some t ← enumType name then return some (.enumeration t)
  return (← typeDefinition name).map .definition

/-- The types directly derived from a type. -/
def derivedTypes (name : QualifiedName) : InDirectory (List QualifiedName) := do
  let name ← resolveAlias name
  (← askDerivedTypes name).mapM resolveAlias

end ODataRequest
