import ODataRequest.Directory.Elements
import ODataRequest.Directory.Operations

/-!
# ODataRequest.Directory.Schemas

Whole schemas in the directory. Each declared element is asked for by its name, in the order of
the declaration; operations come grouped by name, the names in ascending order. An annotated target
that is no qualified name is left out.
-/

namespace ODataRequest

/-- The elements of given names, those that are absent left out. -/
def elementsOf {α β : Type} (find : β → InDirectory (Option α)) (keys : List β) :
    InDirectory (List α) := do
  return (← keys.mapM find).filterMap id

/-- Distinct names in ascending order. -/
def distinctAscending (ids : List Identifier) : List Identifier :=
  ids.eraseDups.mergeSort fun a b => decide (a.text ≤ b.text)

/-- The annotated targets that are qualified names, with their qualifiers. -/
def namedTargets (groups : List Csdl.AnnotationGroup) : List (QualifiedName × Option String) :=
  groups.filterMap fun g => do
    return (← QualifiedName.ofString? g.target, g.qualifier)

/-- The container that a schema declares, resolved. -/
def declaredContainer (s : Csdl.Schema) : InDirectory (Option Container) :=
  match s.container with
  | some c => containerNamed ⟨s.space, c.name⟩
  | none => return none

/-- A declared schema with all its elements resolved. -/
def resolveSchema (s : Csdl.Schema) : InDirectory Schema := do
  let qualify (id : Identifier) : QualifiedName := ⟨s.space, id⟩
  let entityTypes ← elementsOf entityType (s.entityTypes.map (qualify ·.name))
  let complexTypes ← elementsOf complexType (s.complexTypes.map (qualify ·.name))
  let enumTypes ← elementsOf enumType (s.enumTypes.map (qualify ·.name))
  let typeDefinitions ← elementsOf typeDefinition (s.typeDefinitions.map (qualify ·.name))
  let terms ← elementsOf term (s.terms.map (qualify ·.name))
  let actions ← (distinctAscending (s.actions.map (·.name))).mapM fun id =>
    actionFamily.named (qualify id)
  let functions ← (distinctAscending (s.functions.map (·.name))).mapM fun id =>
    functionFamily.named (qualify id)
  let container ← declaredContainer s
  let annotations ← elementsOf (fun t => annotationGroup t.1 t.2) (namedTargets s.annotations)
  return { space := s.space, aliasName := s.aliasName, entityTypes, complexTypes, enumTypes,
           typeDefinitions, terms, actions := actions.flatten, functions := functions.flatten,
           container, annotations }

/-- The declared schema of a namespace, resolved. -/
def loadSchema (space : Namespace) : InDirectory (Option Schema) := do
  (← askSchema space).mapM resolveSchema

/-- The schema of a namespace or alias. -/
def schema (space : Namespace) : InDirectory (Option Schema) := do
  let space ← resolveNamespace space
  schemaStore.remembered space (loadSchema space)

end ODataRequest
