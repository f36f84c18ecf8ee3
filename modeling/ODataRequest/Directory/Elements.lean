import ODataRequest.Directory.Basic
import ODataRequest.Text.Cut

/-!
# ODataRequest.Directory.Elements

Terms, annotations and entity containers in the directory. Once the default container has been
found it is known by its name, so later requests for it go through the store.
-/

namespace ODataRequest

/-! ### Terms and annotations -/

/-- A declared term, resolved. -/
def resolveTerm (name : QualifiedName) (t : Csdl.Term) : InDirectory Term := do
  let type ← resolveReference t.type
  let baseTerm ← t.baseTerm.mapM resolveAlias
  let appliesTo := (Text.words (t.appliesTo.getD "").toList).map String.ofList
  return { name, type, baseTerm, appliesTo, defaultValue := t.defaultValue, nullable := t.nullable }

/-- The declared term of a real name, resolved. -/
def loadTerm (name : QualifiedName) : InDirectory (Option Term) := do
  (← askSource (.term name)).mapM (resolveTerm name)

/-- The term of a name. -/
def term (name : QualifiedName) : InDirectory (Option Term) := do
  let name ← resolveAlias name
  termStore.remembered name (loadTerm name)

/-- A declared annotation, resolved. -/
def resolveAnnotation (a : Csdl.Annotation) : InDirectory Annotation := do
  return { term := ← resolveAlias a.term, qualifier := a.qualifier,
           value := AnnotationValue.ofDeclared a }

/-- The declared annotations of a real target under a qualifier, resolved. -/
def loadAnnotations (target : QualifiedName) (qualifier : Option String) :
    InDirectory (Option AnnotationGroup) := do
  (← askSource (.annotations target qualifier)).mapM fun g => do
    return { target, qualifier, annotations := ← g.annotations.mapM resolveAnnotation }

/-- The annotations of a target under a qualifier. -/
def annotationGroup (target : QualifiedName) (qualifier : Option String) :
    InDirectory (Option AnnotationGroup) := do
  let target ← resolveAlias target
  annotationStore.remembered (target, qualifier) (loadAnnotations target qualifier)

/-! ### Containers -/

/-- A declared container, resolved under its qualified name. -/
def resolveContainer (name : QualifiedName) (c : Csdl.Container) : InDirectory Container := do
  let entitySets ← c.entitySets.mapM fun s => do
    return ({ s with entityType := ← resolveAlias s.entityType, container := name } : EntitySet)
  let singletons ← c.singletons.mapM fun s => do
    return ({ s with entityType := ← resolveAlias s.entityType, container := name } : Singleton)
  let actionImports ← c.actionImports.mapM fun i => do
    return { i with action := ← resolveAlias i.action }
  let functionImports ← c.functionImports.mapM fun i => do
    return { i with function := ← resolveAlias i.function }
  return { name, entitySets, singletons, actionImports, functionImports }

/-- The declared container of a real name, resolved. -/
def loadContainer (name : QualifiedName) : InDirectory (Option Container) := do
  (← askSource (.container (some name))).mapM fun (found, c) => resolveContainer found c

/-- The container of a name. -/
def containerNamed (name : QualifiedName) : InDirectory (Option Container) := do
  let name ← resolveAlias name
  containerStore.remembered name (loadContainer name)

/-- The container of a name, or the default container. -/
def container (name : Option QualifiedName) : InDirectory (Option Container) := do
  match name.or (← get).defaultContainer with
  | some name => containerNamed name
  | none =>
    match ← askSource (.container none) with
    | none => return none
    | some (found, c) =>
      let found ← resolveAlias found
      let made ← resolveContainer found c
      let stored ← containerStore.put found made
      modify fun d => { d with defaultContainer := some found }
      return some stored

end ODataRequest
