import ODataRequest.Csdl.Schema

/-!
# ODataRequest.Directory.Source

Where the directory gets its schemas from. A source answers requests for declared elements by
name; the name may be in the alias of a namespace. It holds its schemas in memory:

* of two schemas of one namespace the later one is asked, of two equal aliases the later one counts;
* of two elements of one name the first one is given;
* the default container is the one of the first schema that has a container.

A source with only the basic requests has no index: aliases and schemas are found by going through
all schemas, and derived types are not known to it.
-/

namespace ODataRequest

/-- A request to a source. -/
inductive SourceRequest where
  | schemas
  | aliases
  | schema (space : Namespace)
  | entityType (name : QualifiedName)
  | complexType (name : QualifiedName)
  | enumType (name : QualifiedName)
  | typeDefinition (name : QualifiedName)
  | term (name : QualifiedName)
  | container (name : Option QualifiedName)
  | annotations (target : QualifiedName) (qualifier : Option String)
  | actions (name : QualifiedName)
  | functions (name : QualifiedName)
  | derivedTypes (name : QualifiedName)
deriving DecidableEq

namespace SourceRequest

/-- What answers a request. -/
@[reducible] def Answer : SourceRequest → Type
  | .schemas => List Csdl.Schema
  | .aliases => List (Namespace × Namespace)
  | .schema _ => Option Csdl.Schema
  | .entityType _ => Option Csdl.EntityType
  | .complexType _ => Option Csdl.StructuredType
  | .enumType _ => Option Csdl.EnumType
  | .typeDefinition _ => Option Csdl.TypeDefinition
  | .term _ => Option Csdl.Term
  | .container _ => Option (QualifiedName × Csdl.Container)
  | .annotations _ _ => Option Csdl.AnnotationGroup
  | .actions _ => List Csdl.Action
  | .functions _ => List Csdl.Function
  | .derivedTypes _ => List QualifiedName

/-- The text of a request as it is kept in the log. -/
def text : SourceRequest → String
  | .schemas => "schemas"
  | .aliases => "aliases"
  | .schema space => "schema " ++ space.text
  | .entityType name => "entity_type " ++ name.text
  | .complexType name => "complex_type " ++ name.text
  | .enumType name => "enum_type " ++ name.text
  | .typeDefinition name => "type_definition " ++ name.text
  | .term name => "term " ++ name.text
  | .container none => "entity_container"
  | .container (some name) => "entity_container " ++ name.text
  | .annotations target none => "annotations_group " ++ target.text
  | .annotations target (some qualifier) => "annotations_group " ++ target.text ++ "#" ++ qualifier
  | .actions name => "actions " ++ name.text
  | .functions name => "functions " ++ name.text
  | .derivedTypes name => "derived_types " ++ name.text

end SourceRequest

/-- A source: its schemas, and whether it answers the basic requests only. -/
structure Source where
  schemas : List Csdl.Schema
  basicOnly : Bool

namespace Source

/-- Aliases with their namespaces, in the order of the schemas. -/
def aliasPairs (s : Source) : List (Namespace × Namespace) :=
  s.schemas.filterMap fun schema => schema.aliasSpace?.map fun short => (short, schema.space)

/-- The namespace that an alias in a list of pairs stands for; the last pair counts. -/
def lookupAlias? (pairs : List (Namespace × Namespace)) (space : Namespace) : Option Namespace :=
  pairs.reverse.lookup space

/-- A namespace, with an alias replaced. -/
def realSpace (s : Source) (space : Namespace) : Namespace :=
  (lookupAlias? s.aliasPairs space).getD space

/-- A name, with an alias replaced. -/
def realName (s : Source) (name : QualifiedName) : QualifiedName :=
  { name with space := s.realSpace name.space }

/-- The schema of a namespace or alias. -/
def schema? (s : Source) (space : Namespace) : Option Csdl.Schema :=
  s.schemas.reverse.find? (·.space == s.realSpace space)

/-- The first element of a name in a list of elements of its schema. -/
def find? {α : Type} (s : Source) (items : Csdl.Schema → List α) (nameOf : α → Identifier)
    (name : QualifiedName) : Option α :=
  (s.schema? name.space).bind fun schema => (items schema).find? (nameOf · == name.name)

/-- All elements of a name in a list of elements of its schema. -/
def findAll {α : Type} (s : Source) (items : Csdl.Schema → List α) (nameOf : α → Identifier)
    (name : QualifiedName) : List α :=
  match s.schema? name.space with
  | some schema => (items schema).filter (nameOf · == name.name)
  | none => []

/-- The container of a schema with its qualified name. -/
def containerOf? (schema : Csdl.Schema) : Option (QualifiedName × Csdl.Container) :=
  schema.container.map fun c => (⟨schema.space, c.name⟩, c)

/-- The container of a name, or the default container. -/
def container? (s : Source) : Option QualifiedName → Option (QualifiedName × Csdl.Container)
  | none => s.schemas.findSome? containerOf?
  | some name => do
    let (found, container) ← containerOf? (← s.schema? name.space)
    if found.name = name.name then some (found, container) else none

/-- Does a declared target name the given one? Targets that are paths name none. -/
def targets (s : Source) (target : QualifiedName) (g : Csdl.AnnotationGroup) : Bool :=
  match QualifiedName.ofString? g.target with
  | some name => s.realName name == target
  | none => false

/-- The first annotations of a target under a qualifier. -/
def annotations? (s : Source) (target : QualifiedName) (qualifier : Option String) :
    Option Csdl.AnnotationGroup :=
  (s.schemas.flatMap (·.annotations)).find? fun g => g.qualifier == qualifier && s.targets target g

/-- The base types that a schema names, each with the type derived from it: entity types first. -/
def derivations (schema : Csdl.Schema) : List (QualifiedName × QualifiedName) :=
  (schema.entityTypes.map (·.toStructuredType) ++ schema.complexTypes).filterMap fun t =>
    t.baseType.map fun base => (base, ⟨schema.space, t.name⟩)

/-- The types directly derived from a type. -/
def derivedTypes (s : Source) (base : QualifiedName) : List QualifiedName :=
  ((s.schemas.flatMap derivations).filter fun d => s.realName d.1 == base).map (·.2)

/-- The answer to a request. -/
def answer (s : Source) : (r : SourceRequest) → r.Answer
  | .schemas => s.schemas
  | .aliases => s.aliasPairs
  | .schema space => s.schema? space
  | .entityType name => s.find? (·.entityTypes) (·.name) name
  | .complexType name => s.find? (·.complexTypes) (·.name) name
  | .enumType name => s.find? (·.enumTypes) (·.name) name
  | .typeDefinition name => s.find? (·.typeDefinitions) (·.name) name
  | .term name => s.find? (·.terms) (·.name) name
  | .container name => s.container? name
  | .annotations target qualifier => s.annotations? target qualifier
  | .actions name => s.findAll (·.actions) (·.name) name
  | .functions name => s.findAll (·.functions) (·.name) name
  | .derivedTypes base => s.derivedTypes base

/-- A bound on the length of chains of base types. A chain without repetition visits a declared
type at most once under each namespace or alias. -/
def chainBound (s : Source) : Nat :=
  let types := s.schemas.foldr
    (fun schema n => schema.entityTypes.length + schema.complexTypes.length + n) 0
  (types + 1) * (2 * s.schemas.length + 1)

end Source

end ODataRequest
