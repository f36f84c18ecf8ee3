import ODataRequest.Csdl.Document
import ODataRequest.Csdl.Schema

/-!
# ODataRequest.Csdl.Reader

Schemas read from JSON documents. Member names are those of the schema language in Pascal case. A
document is refused as a whole if a required member is missing, a value has the wrong type or range,
or a name is not well formed.
-/

namespace ODataRequest.Csdl

open Document

/-! ### Names -/

/-- An identifier as the value of a member. -/
def identifier? : Document → Option Identifier := parsed? Identifier.parse

/-- A qualified name as the value of a member. -/
def qualifiedName? : Document → Option QualifiedName := parsed? QualifiedName.parse

/-- A type reference as the value of a member. -/
def typeReference? : Document → Option TypeReference := parsed? TypeReference.parse

/-- Read an object. -/
def object? {α : Type} (read : Document → Option α) (d : Document) : Option α :=
  if d.isObject then read d else none

/-! ### Structured types -/

/-- Read a structural property. -/
def Property.ofDocument? : Document → Option Property := object? fun d => do
  return {
    name := ← d.required identifier? "Name"
    type := ← d.required typeReference? "Type"
    nullable := ← d.flagOr true "Nullable"
    maxLength := ← d.optional nat32? "MaxLength"
    precision := ← d.optional nat32? "Precision"
    scale := ← d.optional nat32? "Scale"
    defaultValue := ← d.optional string? "DefaultValue" }

/-- Read a navigation property. -/
def NavigationProperty.ofDocument? : Document → Option NavigationProperty := object? fun d => do
  return {
    name := ← d.required identifier? "Name"
    type := ← d.required typeReference? "Type"
    nullable := ← d.flagOr true "Nullable"
    partner := ← d.optional string? "Partner"
    containsTarget := ← d.flag "ContainsTarget" }

/-- Read a reference to a key property. -/
def KeyReference.ofDocument? : Document → Option KeyReference := object? fun d => do
  return { path := ← d.required string? "Name", aliasName := ← d.optional string? "Alias" }

/-- Read a complex type, or the part of an entity type that is common to both. -/
def StructuredType.ofDocument? : Document → Option StructuredType := object? fun d => do
  return {
    name := ← d.required identifier? "Name"
    baseType := ← d.optional qualifiedName? "BaseType"
    isAbstract := ← d.flag "Abstract"
    isOpen := ← d.flag "OpenType"
    properties := ← d.listOf Property.ofDocument? "Properties"
    navigationProperties := ← d.listOf NavigationProperty.ofDocument? "NavigationProperties" }

/-- Read an entity type. -/
def EntityType.ofDocument? (d : Document) : Option EntityType := do
  return {
    toStructuredType := ← StructuredType.ofDocument? d
    hasStream := ← d.flag "HasStream"
    key := ← d.listOf KeyReference.ofDocument? "Key" }

/-! ### Other types and terms -/

/-- Read a member of an enumeration. -/
def EnumMember.ofDocument? : Document → Option EnumMember := object? fun d => do
  return { name := ← d.required identifier? "Name", value := ← d.optional int64? "Value" }

/-- Read an enumeration. -/
def EnumType.ofDocument? : Document → Option EnumType := object? fun d => do
  return {
    name := ← d.required identifier? "Name"
    underlyingType := ← d.optional qualifiedName? "UnderlyingType"
    isFlags := ← d.flag "IsFlags"
    members := ← d.listOf EnumMember.ofDocument? "Members" }

/-- Read a type definition. -/
def TypeDefinition.ofDocument? : Document → Option TypeDefinition := object? fun d => do
  return {
    name := ← d.required identifier? "Name"
    underlyingType := ← d.required qualifiedName? "UnderlyingType"
    maxLength := ← d.optional nat32? "MaxLength"
    precision := ← d.optional nat32? "Precision"
    scale := ← d.optional nat32? "Scale" }

/-- Read a term. -/
def Term.ofDocument? : Document → Option Term := object? fun d => do
  return {
    name := ← d.required identifier? "Name"
    type := ← d.required typeReference? "Type"
    baseTerm := ← d.optional qualifiedName? "BaseTerm"
    appliesTo := ← d.optional string? "AppliesTo"
    defaultValue := ← d.optional string? "DefaultValue"
    nullable := ← d.flagOr true "Nullable" }

/-- Read an application of a term. -/
def Annotation.ofDocument? : Document → Option Annotation := object? fun d => do
  return {
    term := ← d.required qualifiedName? "Term"
    qualifier := ← d.optional string? "Qualifier"
    string := ← d.optional string? "String"
    bool := ← d.optional bool? "Bool"
    int := ← d.optional int64? "Int"
    enumMember := ← d.optional string? "EnumMember" }

/-- Read the annotations of one target. -/
def AnnotationGroup.ofDocument? : Document → Option AnnotationGroup := object? fun d => do
  return {
    target := ← d.required string? "Target"
    qualifier := ← d.optional string? "Qualifier"
    annotations := ← d.listOf Annotation.ofDocument? "Annotations" }

/-! ### Operations -/

/-- Read a parameter. -/
def Parameter.ofDocument? : Document → Option Parameter := object? fun d => do
  return {
    name := ← d.required identifier? "Name"
    type := ← d.required typeReference? "Type"
    nullable := ← d.flagOr true "Nullable" }

/-- Read a result. -/
def ReturnType.ofDocument? : Document → Option ReturnType := object? fun d => do
  return {
    type := ← d.required typeReference? "Type"
    nullable := ← d.flagOr true "Nullable" }

/-- Read what actions and functions have in common. -/
def Operation.ofDocument? : Document → Option Operation := object? fun d => do
  return {
    name := ← d.required identifier? "Name"
    isBound := ← d.flag "IsBound"
    entitySetPath := ← d.optional string? "EntitySetPath"
    parameters := ← d.listOf Parameter.ofDocument? "Parameters" }

/-- Read an action. -/
def Action.ofDocument? (d : Document) : Option Action := do
  return {
    toOperation := ← Operation.ofDocument? d
    returnType := ← d.optional ReturnType.ofDocument? "ReturnType" }

/-- Read a function. -/
def Function.ofDocument? (d : Document) : Option Function := do
  return {
    toOperation := ← Operation.ofDocument? d
    isComposable := ← d.flag "IsComposable"
    returnType := ← d.required ReturnType.ofDocument? "ReturnType" }

/-! ### Entity container -/

/-- Read a navigation property binding. -/
def NavigationBinding.ofDocument? : Document → Option NavigationBinding := object? fun d => do
  return { path := ← d.required string? "Path", target := ← d.required string? "Target" }

/-- Read an entity set. -/
def EntitySet.ofDocument? : Document → Option EntitySet := object? fun d => do
  return {
    name := ← d.required identifier? "Name"
    entityType := ← d.required qualifiedName? "EntityType"
    bindings := ← d.listOf NavigationBinding.ofDocument? "NavigationPropertyBindings"
    inServiceDocument := ← d.flagOr true "IncludeInServiceDocument" }

/-- Read a singleton. -/
def Singleton.ofDocument? : Document → Option Singleton := object? fun d => do
  return {
    name := ← d.required identifier? "Name"
    entityType := ← d.required qualifiedName? "Type"
    bindings := ← d.listOf NavigationBinding.ofDocument? "NavigationPropertyBindings" }

/-- Read an action import. -/
def ActionImport.ofDocument? : Document → Option ActionImport := object? fun d => do
  return {
    name := ← d.required identifier? "Name"
    action := ← d.required qualifiedName? "Action"
    entitySet := ← d.optional string? "EntitySet" }

/-- Read a function import. -/
def FunctionImport.ofDocument? : Document → Option FunctionImport := object? fun d => do
  return {
    name := ← d.required identifier? "Name"
    function := ← d.required qualifiedName? "Function"
    entitySet := ← d.optional string? "EntitySet"
    inServiceDocument := ← d.flagOr false "IncludeInServiceDocument" }

/-- Read an entity container. -/
def Container.ofDocument? : Document → Option Container := object? fun d => do
  return {
    name := ← d.required identifier? "Name"
    entitySets := ← d.listOf EntitySet.ofDocument? "EntitySets"
    singletons := ← d.listOf Singleton.ofDocument? "Singletons"
    actionImports := ← d.listOf ActionImport.ofDocument? "ActionImports"
    functionImports := ← d.listOf FunctionImport.ofDocument? "FunctionImports" }

/-! ### Schema -/

/-- Read a schema. -/
def Schema.ofDocument? : Document → Option Schema := object? fun d => do
  return {
    space := ← d.required (parsed? Namespace.parse) "Namespace"
    aliasName := ← d.optional identifier? "Alias"
    entityTypes := ← d.listOf EntityType.ofDocument? "EntityTypes"
    complexTypes := ← d.listOf StructuredType.ofDocument? "ComplexTypes"
    enumTypes := ← d.listOf EnumType.ofDocument? "EnumTypes"
    typeDefinitions := ← d.listOf TypeDefinition.ofDocument? "TypeDefinitions"
    actions := ← d.listOf Action.ofDocument? "Actions"
    functions := ← d.listOf Function.ofDocument? "Functions"
    terms := ← d.listOf Term.ofDocument? "Terms"
    container := ← d.optional Container.ofDocument? "EntityContainer"
    annotations := ← d.listOf AnnotationGroup.ofDocument? "Annotations" }

/-- Read a list of schemas. -/
def schemasOfDocument? : Document → Option (List Schema)
  | .list items => items.mapM Schema.ofDocument?
  | _ => none

end ODataRequest.Csdl
