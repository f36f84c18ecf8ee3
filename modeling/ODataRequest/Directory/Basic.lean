import ODataRequest.Directory.Error
import ODataRequest.Directory.Source
import ODataRequest.Model.Schema

/-!
# ODataRequest.Directory.Basic

The state of a type directory: the source it asks, a store for each kind of element it has already
resolved, and a log of the requests it made. Requests can be told to fail, for good or once; that
is how the directory's behaviour on an unreliable source is exercised.

An operation on the directory (`InDirectory`) keeps the new state also where it fails: elements that
were resolved on the way stay in their stores. `remembered` is the rule all stores follow: what is
there is returned, what is not is made and put in, and absence and failure are not remembered.
-/

namespace ODataRequest

/-- Resolved elements by key; the first entry of a key counts. -/
abbrev Store (κ α : Type) := List (κ × α)

/-- A type directory. -/
structure Directory where
  source : Source
  /-- Requests that fail, by their texts. -/
  failing : List String
  /-- Requests that fail the next time, by their texts. -/
  failingOnce : List String
  /-- The requests made, the latest first. -/
  log : List SourceRequest
  aliases : Option (List (Namespace × Namespace))
  defaultContainer : Option QualifiedName
  schemas : Store Namespace Schema
  entityTypes : Store QualifiedName EntityType
  complexTypes : Store QualifiedName StructuredType
  enumTypes : Store QualifiedName EnumType
  typeDefinitions : Store QualifiedName TypeDefinition
  terms : Store QualifiedName Term
  containers : Store QualifiedName Container
  annotations : Store (QualifiedName × Option String) AnnotationGroup
  actions : Store OverloadKey Action
  functions : Store OverloadKey Function
  functionLists : Store QualifiedName (List Function)

namespace Directory

/-- A directory that has not resolved anything yet. -/
def ofSource (source : Source) : Directory :=
  { source
    failing := []
    failingOnce := []
    log := []
    aliases := none
    defaultContainer := none
    schemas := []
    entityTypes := []
    complexTypes := []
    enumTypes := []
    typeDefinitions := []
    terms := []
    containers := []
    annotations := []
    actions := []
    functions := []
    functionLists := [] }

/-- A directory over schemas in memory. -/
def ofSchemas (schemas : List Csdl.Schema) : Directory :=
  ofSource { schemas, basicOnly := false }

end Directory

/-- A computation over a directory, which keeps its changes also where it fails. -/
abbrev InDirectory := ExceptT DirectoryError (StateM Directory)

namespace InDirectory

/-- Run a computation: its result, and the directory after it. -/
def runOn {α : Type} (x : InDirectory α) (d : Directory) : Except DirectoryError α × Directory :=
  Id.run (StateT.run (ExceptT.run x) d)

/-- Put a failure into the context of an element. -/
def inContext {α : Type} (context : DirectoryError → DirectoryError) (x : InDirectory α) :
    InDirectory α :=
  ExceptT.adapt context x

end InDirectory

/-! ### Requests -/

/-- Ask the source. -/
def askSource (r : SourceRequest) : InDirectory r.Answer := do
  modify fun d => { d with log := r :: d.log }
  let d ← get
  if d.failingOnce.contains r.text then
    set { d with failingOnce := d.failingOnce.erase r.text }
    throw (.source ("down once: " ++ r.text))
  else if d.failing.contains r.text then
    throw (.source ("down: " ++ r.text))
  else
    return d.source.answer r

/-- Aliases and their namespaces, asked for directly or found by going through all schemas. -/
def askAliases : InDirectory (List (Namespace × Namespace)) := do
  let d ← get
  if d.source.basicOnly then
    let schemas ← askSource .schemas
    return Source.aliasPairs { schemas, basicOnly := true }
  else askSource .aliases

/-- The declared schema of a namespace, asked for directly or found among all schemas. -/
def askSchema (space : Namespace) : InDirectory (Option Csdl.Schema) := do
  let d ← get
  if d.source.basicOnly then
    let schemas ← askSource .schemas
    return schemas.find? (·.space == space)
  else askSource (.schema space)

/-- The types that the source knows to be directly derived from a type. -/
def askDerivedTypes (name : QualifiedName) : InDirectory (List QualifiedName) := do
  let d ← get
  if d.source.basicOnly then return [] else askSource (.derivedTypes name)

/-! ### Stores -/

/-- A store inside the directory. -/
structure StoreIn (κ α : Type) where
  entries : Directory → Store κ α
  replace : Store κ α → Directory → Directory

namespace StoreIn

/-- The element stored under a key. -/
def find? {κ α : Type} [DecidableEq κ] (s : StoreIn κ α) (key : κ) : InDirectory (Option α) := do
  return (s.entries (← get)).lookup key

/-- Put an element under a key that has none, and give the element that is there then. -/
def put {κ α : Type} [DecidableEq κ] (s : StoreIn κ α) (key : κ) (value : α) : InDirectory α := do
  let entries := s.entries (← get)
  match entries.lookup key with
  | some present => return present
  | none =>
    modify (s.replace ((key, value) :: entries))
    return value

/-- The element stored under a key; if there is none, make it and store it. -/
def remembered {κ α : Type} [DecidableEq κ] (s : StoreIn κ α) (key : κ)
    (make : InDirectory (Option α)) : InDirectory (Option α) := do
  match ← s.find? key with
  | some value => return some value
  | none =>
    match ← make with
    | none => return none
    | some value => return some (← s.put key value)

end StoreIn

/-- The store of entity types. -/
def entityTypeStore : StoreIn QualifiedName EntityType :=
  ⟨(·.entityTypes), fun entries d => { d with entityTypes := entries }⟩

/-- The store of complex types. -/
def complexTypeStore : StoreIn QualifiedName StructuredType :=
  ⟨(·.complexTypes), fun entries d => { d with complexTypes := entries }⟩

/-- The store of enumerations. -/
def enumTypeStore : StoreIn QualifiedName EnumType :=
  ⟨(·.enumTypes), fun entries d => { d with enumTypes := entries }⟩

/-- The store of type definitions. -/
def typeDefinitionStore : StoreIn QualifiedName TypeDefinition :=
  ⟨(·.typeDefinitions), fun entries d => { d with typeDefinitions := entries }⟩

/-- The store of terms. -/
def termStore : StoreIn QualifiedName Term :=
  ⟨(·.terms), fun entries d => { d with terms := entries }⟩

/-- The store of containers. -/
def containerStore : StoreIn QualifiedName Container :=
  ⟨(·.containers), fun entries d => { d with containers := entries }⟩

/-- The store of annotations, by target and qualifier. -/
def annotationStore : StoreIn (QualifiedName × Option String) AnnotationGroup :=
  ⟨(·.annotations), fun entries d => { d with annotations := entries }⟩

/-- The store of actions. -/
def actionStore : StoreIn OverloadKey Action :=
  ⟨(·.actions), fun entries d => { d with actions := entries }⟩

/-- The store of functions. -/
def functionStore : StoreIn OverloadKey Function :=
  ⟨(·.functions), fun entries d => { d with functions := entries }⟩

/-- The store of lists of unbound functions. -/
def functionListStore : StoreIn QualifiedName (List Function) :=
  ⟨(·.functionLists), fun entries d => { d with functionLists := entries }⟩

/-- The store of schemas. -/
def schemaStore : StoreIn Namespace Schema :=
  ⟨(·.schemas), fun entries d => { d with schemas := entries }⟩

/-! ### Aliases -/

/-- The table of aliases, asked for once. -/
def aliasTable : InDirectory (List (Namespace × Namespace)) := do
  match (← get).aliases with
  | some pairs => return pairs
  | none =>
    let pairs ← askAliases
    modify fun d => { d with aliases := some pairs }
    return pairs

/-- A namespace, with an alias replaced. -/
def resolveNamespace (space : Namespace) : InDirectory Namespace := do
  return (Source.lookupAlias? (← aliasTable) space).getD space

/-- A name, with an alias replaced. Names of the reserved namespace stay as they are. -/
def resolveAlias (name : QualifiedName) : InDirectory QualifiedName := do
  if name.isEdm then return name
  else return { name with space := ← resolveNamespace name.space }

/-- A type reference, with an alias replaced. -/
def resolveReference (t : TypeReference) : InDirectory TypeReference := do
  return { t with name := ← resolveAlias t.name }

end ODataRequest
