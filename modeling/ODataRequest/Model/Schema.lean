import ODataRequest.Model.Container
import ODataRequest.Model.Operation
import ODataRequest.Model.Type

/-!
# ODataRequest.Model.Schema

Terms, annotations and whole schemas with their references resolved.
-/

namespace ODataRequest

/-- A term. -/
structure Term where
  name : QualifiedName
  type : TypeReference
  baseTerm : Option QualifiedName
  appliesTo : List String
  defaultValue : Option String
  nullable : Bool

/-- The value of an annotation; one without a value has the default of its term. -/
inductive AnnotationValue where
  | string (text : String)
  | bool (value : Bool)
  | int (value : Int)
  | enumMember (text : String)
  | default

/-- The value of a declared annotation; of several forms the first of text, truth value, integer
and enumeration member counts. -/
def AnnotationValue.ofDeclared (a : Csdl.Annotation) : AnnotationValue :=
  match a.string, a.bool, a.int, a.enumMember with
  | some s, _, _, _ => .string s
  | none, some b, _, _ => .bool b
  | none, none, some n, _ => .int n
  | none, none, none, some m => .enumMember m
  | none, none, none, none => .default

/-- An application of a term. -/
structure Annotation where
  term : QualifiedName
  qualifier : Option String
  value : AnnotationValue

/-- The annotations of one target under one qualifier. -/
structure AnnotationGroup where
  target : QualifiedName
  qualifier : Option String
  annotations : List Annotation

/-- The first annotation that applies a term. -/
def AnnotationGroup.annotation? (g : AnnotationGroup) (term : QualifiedName) : Option Annotation :=
  g.annotations.find? (·.term == term)

/-- All elements of one schema. -/
structure Schema where
  space : Namespace
  aliasName : Option Identifier
  entityTypes : List EntityType
  complexTypes : List StructuredType
  enumTypes : List EnumType
  typeDefinitions : List TypeDefinition
  terms : List Term
  actions : List Action
  functions : List Function
  container : Option Container
  annotations : List AnnotationGroup

end ODataRequest
